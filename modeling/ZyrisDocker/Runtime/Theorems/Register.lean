import ZyrisDocker.Runtime.Store.Register
import ZyrisDocker.Runtime.Theorems.Save

open Text Transition FileCredentialStore

namespace Volume

variable {codec : Codec} {store : FileCredentialStore} {umask : Nat} {known : Credential → Prop}
variable {dir : Directory (PathBuf Bytes)} {p p' : Suspension} {c : Credential}

theorem value_of_complete (hx : dir.find store.path = some x) (h : Reads codec x.bytes c) : value codec store dir = some c := by
  simp [value, hx, h.decodes, Except.toOption]

theorem value_congr (h : dir'.find store.path = dir.find store.path) : value codec store dir' = value codec store dir := by
  rw [value, h, value]

-- Up to the rename, a save leaves the file as it is.
theorem serve_find (ht : store.temp ≠ store.path) (umask n : Nat) (t : Tracks codec store known dir (.save c) p) (hp : p ≠ .rename) :
    (serve store umask dir n p).1.find store.path = dir.find store.path := by
  cases p
  case create          => exact Directory.find_create_of_ne ht.symm
  case restrict        => exact Directory.find_modify_of_ne (t.2.path_ne ht)
  case write           => exact Directory.find_modify_of_ne (t.2.1.path_ne ht)
  case rename          => exact absurd rfl hp
  case read | metadata => cases t
  all_goals rfl

-- No step of a call is its first one again.
theorem resume_ne_first (h : resume codec store p a = some p') : p' ≠ .read ∧ ∀ b, p' ≠ .createDirAll b := by
  simp only [resume, writeAll] at h
  split at h <;> try split at h
  all_goals cases h
  all_goals exact ⟨by simp, by simp⟩

theorem phase_saving (t : Tracks codec store known dir (.save c) p) (hs : ∀ r, p ≠ .saved r) (hc : ∀ b, p ≠ .createDirAll b) :
    phase codec p = .invoked := by
  cases p
  case createDirAll           => exact absurd rfl (hc _)
  case saved                  => exact absurd rfl (hs _)
  case read | metadata | loaded => cases t
  all_goals rfl

theorem silent_of_phase (i : ι) (h : phase codec p = .invoked) : invocation i p = [] ∧ completion i p = [] := by
  cases p
  case createDirAll | read | metadata | saved | loaded => cases h
  all_goals exact ⟨rfl, rfl⟩

section Calls

variable {ι : Type} [DecidableEq ι] {s s' : State ι} {e : Event ι} {requests : ι → Request}

theorem linear_update (codec : Codec) (store : FileCredentialStore) (s : State ι) (dir : Directory (PathBuf Bytes)) (i : ι)
    (p : Suspension) :
    linear codec store { dir, calls := Function.update s.calls i p } =
      ({ linear codec store s with value := value codec store dir }.set i (phase codec p)) := by
  simp only [linear, Object.State.set, Object.State.mk.injEq, true_and]
  funext j
  by_cases hj : j = i
  · subst hj; simp
  · simp [hj]

omit [DecidableEq ι] in
theorem linear_calls (codec : Codec) (store : FileCredentialStore) (s : State ι) (i : ι) : (linear codec store s).calls i = phase codec (s.calls i) := rfl

-- A step of a save: it takes its effect with the rename.
theorem save_trace (ht : store.temp ≠ store.path) (hr : requests e.call = .save c) (hc : Reads codec (codec.encode c) c)
    (t : Tracks codec store known s.dir (.save c) (s.calls e.call))
    (hp : resume codec store (s.calls e.call) (serve store umask s.dir e.short (s.calls e.call)).2 = some p') :
    Trace (Fires <| Object.step register requests) Object.sees (linear codec store s)
      (invocation e.call (s.calls e.call) ++ completion e.call p')
      ({ linear codec store s with value := value codec store (serve store umask s.dir e.short (s.calls e.call)).1 }.set e.call
        (phase codec p')) := by
  have hi := linear_calls codec store s e.call
  by_cases hn : s.calls e.call = .rename
  case pos =>
    rw [hn] at t hp hi ⊢
    have ⟨dir', hd, x, hx, hb, _⟩ := rename_places umask e.short t
    rw [hd] at hp ⊢
    cases hp
    rw [value_of_complete hx (hb ▸ hc)]
    exact Object.effects_answers hi (by rw [hr]; rfl)
  case neg =>
    rw [value_congr (serve_find ht umask e.short t hn)]
    by_cases hf : ∃ b, s.calls e.call = .createDirAll b
    case pos =>
      have ⟨b, hb⟩ := hf
      rw [hb] at hp hi ⊢
      cases hp
      exact Object.invokes hi
    case neg =>
      have saved (r) : p' ≠ .saved r := by
        rintro rfl
        have h : r = .ok () := t.save_step hp
        exact hn (resume_saved (h ▸ hp))
      have before := phase_saving t (fun _ => pending_of_resume hp _) fun b h => hf ⟨b, h⟩
      have after := phase_saving (t.save_step hp) saved (resume_ne_first hp).2
      have ⟨hs, _⟩ := silent_of_phase e.call before
      have ⟨_, hs'⟩ := silent_of_phase e.call after
      have hv : { linear codec store s with value := value codec store s.dir } = linear codec store s := rfl
      rw [hs, hs', after, hv, Object.State.set_eq (hi.trans before)]
      exact .refl

-- A step of a load: it takes its effect when it reads.
theorem load_trace (hr : requests e.call = .load) (k : Keeps codec store known s.dir)
    (t : Tracks codec store known s.dir .load (s.calls e.call))
    (hp : resume codec store (s.calls e.call) (serve store umask s.dir e.short (s.calls e.call)).2 = some p') :
    Trace (Fires <| Object.step register requests) Object.sees (linear codec store s)
      (invocation e.call (s.calls e.call) ++ completion e.call p')
      ((linear codec store s).set e.call (phase codec p')) := by
  have hi := linear_calls codec store s e.call
  generalize s.calls e.call = p at t hp hi ⊢
  have ha {r} (h : r = .loaded (.ok (linear codec store s).value)) :
      register.apply (requests e.call) (linear codec store s).value = ((linear codec store s).value, r) := by
    rw [hr, h]; rfl
  cases p
  case read =>
    cases hx : s.dir.find store.path <;> simp only [serve, hx] at hp <;> cases hp
    case none   => exact Object.invokes_effects_answers hi (ha (by simp [linear, value, hx]))
    case some x => exact Object.invokes_effects hi (ha (by simp [linear, value, hx]))
  case metadata b =>
    obtain ⟨hs, c, _, hc⟩ := t
    obtain ⟨x, hx⟩ := Option.isSome_iff_exists.mp hs
    obtain ⟨_, _, hx'⟩ := k x hx
    simp only [serve, hx] at hp
    cases hp
    rw [check_of_reads hc hx'.privy]
    exact Object.answers (hi.trans (by simp [phase, hc.decodes, Except.toOption]))
  case loaded => cases hp
  all_goals cases t

theorem step_trace (ht : store.temp ≠ store.path) (kn : Known codec known requests) (d : Sound codec store known requests s)
    (h : step codec store umask s e = some s') :
    Trace (Fires <| Object.step register requests) Object.sees (linear codec store s) (sees s e s') (linear codec store s') := by
  have ⟨p, hp, hs⟩ := Sound.step_inv h
  have t := d.tracks e.call
  subst hs
  rw [linear_update]
  simp only [sees, Function.update_self]
  cases hr : requests e.call <;> rw [hr] at t
  case save => exact save_trace ht hr (kn.reads hr) t hp
  case load =>
    rw [t.load_dir]
    exact load_trace hr d.keeps t hp

omit [DecidableEq ι] in
theorem linear_init (codec : Codec) (dir : Directory (PathBuf Bytes)) (requests : ι → Request) (h : store.path.parent = some q) :
    linear codec store (init codec store dir requests) = Object.init (value codec store dir) := by
  simp only [linear, init, Object.init, Object.State.mk.injEq, true_and]
  funext i
  cases requests i
  case save => simp [start, save, h, phase]
  case load => rfl

theorem linearizable (credentialDir : PathBuf Bytes) (serverUrl profile : String) (umask : Nat) :
    let store := ofServer credentialDir serverUrl profile
    (hr : ∀ i c, requests i = .save c → Reads codec (codec.encode c) c) →
    (hd : ∀ x, dir.find store.path = some x → ∃ c, Complete codec x c) →
    (t : Trace (Guard (Fires <| step codec store umask) Exclusive) sees (init codec store dir requests) os s) →
    Trace (Fires <| Object.step register requests) Object.sees (Object.init (value codec store dir)) os (linear codec store s) := by
  intro store hr hd t
  have ht := temp_ne_path credentialDir serverUrl profile
  have kn : Known codec (Saved codec store dir requests) requests := known_saved hr
  have k : Keeps codec store (Saved codec store dir requests) dir := keeps_saved hd
  have hp : store.path.parent = some credentialDir := by
    simp [store, ofServer, PathBuf.parent, PathBuf.pop]
  rw [← linear_init codec dir requests hp]
  refine t.refines (linear codec store) (Sound.init k) (fun s e s' d g => ?_) fun s e s' d g => ?_
  case refine_1 => exact d.step ht kn g.meets g.fires
  case refine_2 => exact step_trace ht kn d g.fires

-- One node saves its credential, then another one loads it.
theorem linearizable_saved :
    let store := ofServer [.root, .name [118]] "wss://attacca.example" "default"
    let codec := prettyCodec [sample "zc_a"]
    let requests : Bool → Request := (if · then .save (sample "zc_a") else .load)
    ∃ os s, Trace (Guard (Fires <| step codec store 0o022) Exclusive) sees (init codec store .empty requests) os s ∧
      Trace (Fires <| Object.step register requests) Object.sees (Object.init none) os (linear codec store s) ∧
      s.calls false = .loaded (.ok (some (sample "zc_a"))) := by
  intro store codec requests
  have hc : Reads codec (pretty (sample "zc_a")) (sample "zc_a") :=
    prettyCodec_reads (List.mem_singleton_self _) rfl (by simp)
  have hr (i) (c) (h : requests i = .save c) : Reads codec (codec.encode c) c := by
    cases i <;> cases h
    exact hc
  obtain ⟨s, r, hs, _, hx⟩ := save_stores codec store 0o022 (s := init codec store .empty requests) (i := true)
    (temp_ne_path _ _ _) rfl (pretty_ne_nil _) rfl (fun i => by cases i <;> rfl)
  have loads : s.calls false = .read := by rw [hs]; rfl
  have read : serve store 0o022 s.dir 0 .read = (s.dir, .bytes (pretty (sample "zc_a"))) := by simp only [serve, hx]; rfl
  have metadata : serve store 0o022 s.dir 0 (.metadata (pretty (sample "zc_a"))) = (s.dir, .mode 0o600) := by
    simp only [serve, hx]
  have r₂ : ∃ s', Run (Guard (Fires <| step codec store 0o022) Exclusive) s [⟨false, 0⟩, ⟨false, 0⟩] s' ∧
      s'.calls false = .loaded (check codec store (pretty (sample "zc_a")) 0o600) := by
    refine ⟨_, .step ⟨step_of_serve loads read rfl, ?_⟩ <| .step ⟨step_of_serve (by simp) metadata rfl, ?_⟩ .refl, ?_⟩
    case refine_3 => simp
    all_goals
      intro _ hb
      simp [loads] at hb
  obtain ⟨s', r₂, hl⟩ := r₂
  obtain ⟨os, t⟩ := Trace.of_run (O := sees) (r.append r₂)
  refine ⟨os, s', t, linearizable _ _ _ 0o022 hr (by simp) t, ?_⟩
  rw [hl, check_of_reads hc (by decide)]

end Calls

end Volume
