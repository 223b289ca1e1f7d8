import ZyrisDocker.Enroll.Atomic
import ZyrisDocker.Enroll.Theorems.Solo
import ZyrisDocker.Lib.Simulation

open Text Transition FileCredentialStore Volume

section Disk

variable {process : Process} {codec : Codec} {store : FileCredentialStore} {disk disk' : Disk}

namespace Folder

theorem apply_foreign (folder : Folder) (process : Process) (store : FileCredentialStore) (n : Nat) (p : Suspension) :
    (folder.apply process store n p).1.foreign = folder.foreign ∨ (folder.apply process store n p).1.foreign = none := by
  cases p
  case rename =>
    simp only [apply]
    split
    case h_1 => exact .inr rfl
    case h_2 => exact .inl rfl
  all_goals exact .inl rfl

theorem refusesRemoval_cases (folder : Folder) (h : folder.refusesRemoval process store = some e) :
    (e = ioNotFound ∧ folder.maySearch process ∧ folder.foreign = none ∧ folder.files.entries store.path = none) ∨
    e = ioDenied ∨ folder.foreign.bind Foreign.stays = some e := by
  simp only [refusesRemoval] at h
  split at h
  case isTrue => cases h; exact .inr (.inl rfl)
  case isFalse hs =>
    split at h
    case isTrue hn =>
      cases h
      exact .inl ⟨rfl, by simpa using hs, Option.isNone_iff_eq_none.mp hn.1, Option.isNone_iff_eq_none.mp hn.2⟩
    case isFalse =>
      split at h
      case isTrue  => cases h; exact .inr (.inl rfl)
      case isFalse => exact .inr (.inr h)

theorem maySearch_of_removal {folder : Folder} (h : folder.refusesRemoval process store = none) : folder.maySearch process := by
  simp only [refusesRemoval] at h
  split at h
  case isTrue     => cases h
  case isFalse hs => simpa using hs

end Folder

namespace Disk

theorem load_stored : (disk.stored process codec store).load = Solo.convert (disk.load process codec store) := by
  simp only [stored]
  split <;> simp_all [Stored.load, Solo.convert, Except.mapError]

theorem stored_congr (h : disk'.load process codec store = disk.load process codec store) :
    disk'.stored process codec store = disk.stored process codec store := by
  simp only [stored, h]

-- What stays, stays there or is replaced.
theorem Stays.perform (h : disk.Stays) (ha : disk.perform process store n fault p = (disk', a)) : disk'.Stays := by
  rcases perform_cases disk process store fault n p with ⟨_, hf⟩ | ⟨_, hf⟩ <;> cases hf.symm.trans ha
  case inl => exact h
  case inr =>
    have hs : ∀ x ∈ (disk.folder process).foreign, ∀ e ∈ x.stays, e.kind ≠ .notFound := by
      cases disk
      case none => exact fun _ hx => by cases hx
      case some => exact h _ rfl
    rintro _ ⟨⟩ x hx
    rcases (disk.folder process).apply_foreign process store n p with hf | hf
    · exact hs x (hf ▸ hx)
    · cases hf.symm.trans hx

theorem stored_eq_empty : disk.stored process codec store = .empty ↔ disk.load process codec store = .ok none := by
  simp only [stored]
  split <;> simp_all

theorem stored_eq_credential :
    disk.stored process codec store = .credential c ↔ disk.load process codec store = .ok (some c) := by
  simp only [stored]
  split <;> simp_all

theorem load_missing {folder : Folder} (hs : folder.maySearch process) (hf : folder.foreign = none)
    (he : folder.files.entries store.path = none) : Disk.load process codec store (some folder) = .ok none := by
  simp [load, readFile, Folder.readFile, Folder.named, hs, hf, he, ioNotFound]

theorem load_unlinked {folder : Folder} (hs : folder.maySearch process) :
    Disk.load process codec store (some { folder with files := folder.files.unlink store.path, foreign := none }) = .ok none :=
  load_missing hs rfl (by simp [Directory.unlink])

theorem Accessible.perform (hd : disk.Accessible process) (ha : disk.perform process store n fault p = (disk', a)) :
    disk'.Accessible process := by
  rcases perform_cases disk process store fault n p with ⟨_, hf⟩ | ⟨hn, hf⟩ <;> cases hf.symm.trans ha
  case inl => exact hd
  case inr => exact Folder.apply_maySearch (accessible_folder.mp hd) hn

-- A removal leaves nothing, or it fails and everything is left.
theorem remove_cases (codec : Codec) (hs : disk.Stays) (hf : ∀ e ∈ fault, e.kind ≠ .notFound)
    (h : disk.remove process store fault = (disk', r)) :
    (clear r = .ok () ∧ disk'.load process codec store = .ok none ∧ disk'.Stays ∧
      (disk.Accessible process → disk'.Accessible process)) ∨ ((∃ e, clear r = .error e) ∧ disk' = disk) := by
  have fails {e : IoError} (he : e.kind ≠ .notFound) : ∃ e', clear (.error e) = .error e' := ⟨.io e, if_neg he⟩
  cases fault
  case some e => cases h; exact .inr ⟨fails (hf e rfl), rfl⟩
  case none   =>
    cases disk
    case none        => cases h; exact .inl ⟨rfl, rfl, hs, id⟩
    case some folder =>
      simp only [remove, Folder.remove] at h
      split at h <;> cases h
      case h_1 e he =>
        rcases folder.refusesRemoval_cases he with ⟨rfl, hs', hn, hm⟩ | rfl | he
        · exact .inl ⟨rfl, load_missing hs' hn hm, hs, id⟩
        · exact .inr ⟨fails (by decide), rfl⟩
        · obtain ⟨x, hx, he⟩ := Option.bind_eq_some_iff.mp he
          exact .inr ⟨fails (hs folder rfl x hx e he), rfl⟩
      case h_2 hn =>
        refine .inl ⟨rfl, load_unlinked (Folder.maySearch_of_removal hn), ?_, id⟩
        rintro _ ⟨⟩ _ ⟨⟩

end Disk

end Disk

-- A call that has not ended has returned nothing.
theorem DeviceGrant.Moves.silent {grant : DeviceGrant} {s : State} {o : State × Option Answer}
    (m : Moves grant s e o) (h : o.1.at ≠ .idle) : o.2 = none := by
  cases m
  case loads | forgets | absent | same | gone | discards | discarded | forgotten | enrolls | granted => rfl
  all_goals exact absurd rfl h

namespace Stored

variable {e : DeviceGrant.Event}

-- The store has no part in what a grant does on its own.
theorem answers_own (stored : Stored) (h : Solo.isStored e = false) : stored.answers e := by
  cases e
  case loaded => cases h
  all_goals rfl

theorem after_own (stored : Stored) (p : DeviceGrant.Suspension) (h : Solo.isStored e = false) : stored.after p e = stored := by
  cases e
  case cleared => cases h
  case saved   => cases h
  all_goals cases p <;> rfl

end Stored

namespace Atomic

variable {grant : DeviceGrant} {s s' : Shared.State} {e : Event} {c : Credential}

theorem answers_of_stored {store : Stored} {e : DeviceGrant.Event} (h : store.answers e) : answers store e := by
  simp only [answers]
  split
  case h_1 => rfl
  case h_2 => exact h

-- A load that fails has no answer.
theorem answers_loaded {store : Stored} {r : Option Credential} (h : answers store (.loaded (.ok r))) : store.load = .ok r :=
  (of_decide_eq_true h).symm

-- What a call has found in the store, as long as it goes on.
def Found (store : Stored) : DeviceGrant.Suspension → Prop
  | .enroll .. | .poll _ | .renew _ | .save _ => store = .empty
  | .clear refused   => ∀ c, store = .credential c → ∃ r, refused = some r ∧ r.secret = c.secret
  | _                => True

theorem found_enrolling {p : DeviceGrant.Suspension} (h : p.enrolling) : Found store p ↔ store = .empty := by
  cases p
  case enroll | poll | renew => exact .rfl
  all_goals cases h

theorem load_empty {store : Stored} (h : store.load = .ok none) : store = .empty := by
  cases store
  case empty => rfl
  all_goals cases h

-- Nobody else writes the store, so it stays what it was found to be.
theorem found_after {store : Stored} {e : DeviceGrant.Event} {p : DeviceGrant.State} {o : DeviceGrant.State × Option DeviceGrant.Answer}
    (ha : answers store e) (f : Found store p.at) (m : DeviceGrant.Moves grant p e o) : Found (store.after p.at e) o.1.at := by
  cases m
  case absent hl | gone hl =>
    cases load_empty (answers_loaded ha)
    simp [Stored.after, Found]
  case same hl hs =>
    simp only [Stored.after, Found]
    rintro c rfl
    cases answers_loaded ha
    exact ⟨_, rfl, hs⟩
  case discarded | forgotten        => simp [Stored.after, Found]
  case enrolls hb hn he =>
    cases (found_enrolling hb).mp f
    refine (found_enrolling hn).mpr ?_
    cases e
    case enrolled | polled | renewed => cases p.at <;> rfl
    all_goals cases he
  case granted hp =>
    rw [hp] at f ⊢
    exact f
  all_goals exact trivial

theorem found (r : Run (Fires <| step grant) (start store) es s) : Found s.store s.grant.at := by
  refine r.preserves (I := fun s => Found s.store s.grant.at) (by trivial) fun s e s' f h => ?_
  cases e
  case kill    => cases h; exact trivial
  case grant e =>
    simp only [Fires, step] at h
    split at h
    case isFalse    => cases h
    case isTrue ha =>
      obtain ⟨_, hm, he⟩ := Option.map_eq_some_iff.mp h
      exact he ▸ found_after ha f (DeviceGrant.step_moves hm)

-- A credential is lost only to a call that found it to be the refused one, or that could not load it.
theorem after_cases {e : DeviceGrant.Event} {p : DeviceGrant.State} {o : DeviceGrant.State × Option DeviceGrant.Answer}
    (f : Found (.credential c) p.at) (m : DeviceGrant.Moves grant p e o) : Stored.after (.credential c) p.at e = .credential c ∨
    Stored.after (.credential c) p.at e = .empty ∧
      ((∃ r, p.at = .clear (some r) ∧ r.secret = c.secret) ∨ ∃ call x, p.at = .discard call x) := by
  cases m
  case discarded hd | forgotten hd => rw [hd]; exact .inr ⟨rfl, .inr ⟨_, _, rfl⟩⟩
  case saved hs                    => rw [hs] at f; cases f
  case cleared hc                  =>
    rw [hc] at f ⊢
    obtain ⟨r, rfl, hs⟩ := f c rfl
    exact .inr ⟨rfl, .inl ⟨r, rfl, hs⟩⟩
  case enrolls he | fails he =>
    left
    cases e
    case enrolled | polled | renewed => cases p.at <;> rfl
    all_goals cases he
  all_goals
    left
    cases p.at <;> rfl

end Atomic

namespace Solo

-- Everything that can happen to a node, as far as the store behind the file is concerned.
inductive Does (process : Process) (codec : Codec) (store : FileCredentialStore) (grant : DeviceGrant) (s : State) :
    Event → State → Prop
  | kill : Does process codec store grant s .kill (start s.disk)
  | own {e : DeviceGrant.Event} (own : isStored e = false) (turn : DeviceGrant.step grant s.grant e = some o) :
    Does process codec store grant s (.grant e) (enter codec store s.disk o)
  | rests (call : s.call ≠ none) (same : disk.stored process codec store = s.disk.stored process codec store) :
    Does process codec store grant s (.io short fault) { s with disk, call := some p, returned := none }
  | serves {e : DeviceGrant.Event} (stored : isStored e) (answers : Atomic.answers (s.disk.stored process codec store) e)
    (turn : DeviceGrant.step grant s.grant e = some o)
    (after : disk.stored process codec store = (s.disk.stored process codec store).after s.grant.at e) :
    Does process codec store grant s (.io short fault) (enter codec store disk o)

variable {process : Process} {codec : Codec} {store : FileCredentialStore} {grant : DeviceGrant} {disk : Disk}
variable {s s' : State} {e : Event} {o : DeviceGrant.State × Option DeviceGrant.Answer}

theorem Turns.usable (u : s.disk.Usable process) (hp : Present s e) (t : Turns process codec store grant s e s') :
    s'.disk.Usable process := by
  cases t
  case kill | grant => exact u
  case advances ha _ _ | loaded ha _ _ | saved ha _ _ => exact ⟨u.stays.perform ha, u.accessible.perform ha⟩
  case removes hc hr _ =>
    obtain ⟨_, _, hs, ha⟩ | ⟨_, rfl⟩ := Disk.remove_cases codec u.stays (hp.removal hc) hr
    · exact ⟨hs, ha u.accessible⟩
    · exact u

-- A save that is not through leaves what can be loaded.
theorem load_pending (ht : store.temp ≠ store.path) (hc : Reads codec (codec.encode c) c) (hd : disk.Accessible process)
    (d : Disk.Save.Sound process codec store before c { disk, call := p, wrote })
    (ha : disk.perform process store n fault p = (disk', a))
    (hr : FileCredentialStore.resume codec store p a = some p') (hp : p' ≠ .saved (.ok ())) :
    disk'.load process codec store = disk.load process codec store := by
  -- What was there when the save began makes no difference.
  have d : Disk.Save.Sound process codec store disk c { disk, call := p, wrote } :=
    { d with accessible := id, pending := fun _ _ => rfl }
  have ⟨_, d'⟩ := save_step ht hc d ha hr
  exact d'.pending hd hp

-- A load that fails for something other than a missing file has failed for an atomic store, too.
theorem answers_load (hl : r = disk.load process codec store ∨ Fails fault p r) (hc : s.call = some p)
    (hp : Present s (.io n fault)) : Atomic.answers (disk.stored process codec store) (.loaded (convert r)) := by
  obtain rfl | ⟨e, rfl, rfl | ⟨rfl, hk, _⟩⟩ := hl
  · exact Atomic.answers_of_stored (by simp [Stored.answers, Disk.load_stored])
  · rfl
  · exact absurd hk (hp (.inr hc))

theorem Turns.does (ht : store.temp ≠ store.path) (d : Sound process codec store s) (u : s.disk.Usable process) (hp : Present s e)
    (t : Turns process codec store grant s e s') : Does process codec store grant s e s' := by
  cases t
  case kill        => exact .kill
  case grant ho hm => exact .own ho hm
  case advances hc ha hs hq =>
    refine .rests (by simp [hc]) (Disk.stored_congr ?_)
    obtain ⟨_, _, hl⟩ | ⟨_, _, _, _, hr, hd⟩ := awaits_cases (hc ▸ d.call)
    · rw [(load_step hl ha hs).1]
    · exact load_pending ht hr u.accessible hd ha hs (hq.2 _)
  case loaded hc ha hs hm =>
    obtain ⟨_, hl, hq⟩ | ⟨_, _, _, _, hr, hd⟩ := awaits_cases (hc ▸ d.call)
    · obtain ⟨rfl, ⟨_, h, _⟩ | ⟨_, h, hr⟩⟩ := load_step hq ha hs <;> cases h
      refine .serves rfl (answers_load hr hc hp) hm ?_
      rw [hl]; rfl
    · exact absurd hs (save_not_loaded ht hr hd ha)
  case saved r _ hc ha hs hm =>
    obtain ⟨_, _, hq⟩ | ⟨c, _, _, hv, hr, hd⟩ := awaits_cases (hc ▸ d.call)
    · exact absurd hs (load_not_saved hq ha)
    · refine .serves rfl rfl hm ?_
      rw [hv]
      cases r
      case error => exact Disk.stored_congr <| load_pending ht hr u.accessible hd ha hs nofun
      case ok =>
        have ⟨_, hd⟩ := save_step ht hr hd ha hs
        simp [Disk.stored, hd.renamed rfl, convert, Except.mapError, Stored.after]
  case removes hc hr hm =>
    refine .serves rfl rfl hm ?_
    obtain ⟨hx, hl, _⟩ | ⟨⟨x, hx⟩, rfl⟩ := Disk.remove_cases codec u.stays (hp.removal hc) hr <;> rw [hx]
    · simp [Disk.stored, hl, convert, Except.mapError, Stored.after]
    · cases s.grant.at <;> rfl

theorem idle_of_request (h : p = .idle) : request codec store p = none := by
  rw [h]; rfl

-- What is known about a node over a file that only it writes.
structure Follows (process : Process) (codec : Codec) (store : FileCredentialStore) (s : State) : Prop where
  sound  : Sound process codec store s
  usable : s.disk.Usable process
  awaits : s.call ≠ none → s.returned = none

namespace Does

theorem awaits (m : Does process codec store grant s e s') :
    s'.call ≠ none → s'.returned = none := by
  cases m
  case kill  => exact fun _ => rfl
  case rests => exact fun _ => rfl
  case own hm | serves hm _ =>
    exact fun hc => (DeviceGrant.step_moves hm).silent fun hi => hc (idle_of_request hi)

theorem fires {e : DeviceGrant.Event} (ha : Atomic.answers (s.disk.stored process codec store) e)
    (hm : DeviceGrant.step grant s.grant e = some o)
    (hs : disk.stored process codec store = (s.disk.stored process codec store).after s.grant.at e) :
    Fires (Atomic.step grant) (atomic process codec store s) (.grant e) (atomic process codec store (enter codec store disk o)) := by
  simp [Fires, Atomic.step, Shared.turn, atomic, enter, ha, hm, hs]

-- A step of the node is a step of the atomic one, or it is a part of one that is not seen.
theorem trace (h : s.call ≠ none → s.returned = none) (m : Does process codec store grant s e s') :
    Trace (Fires <| Atomic.step grant) Atomic.sees (atomic process codec store s) (sees s e s') (atomic process codec store s') := by
  cases m
  case kill => exact .single (show Fires (Atomic.step grant) _ .kill _ from rfl)
  case own ho hm =>
    have hs := Stored.after_own (s.disk.stored process codec store) s.grant.at ho
    have t := Trace.single (O := Atomic.sees) (fires (Atomic.answers_of_stored (Stored.answers_own _ ho)) hm hs.symm)
    simpa [Atomic.sees, sees, ho, atomic] using t
  case rests _ _ disk p hc hs =>
    have he : atomic process codec store { s with disk, call := some p, returned := none } = atomic process codec store s := by
      simp [atomic, hs, h hc]
    rw [he]
    exact .refl
  case serves hs ha hm hd =>
    have t := Trace.single (O := Atomic.sees) (fires ha hm hd)
    simpa [Atomic.sees, sees, hs, atomic] using t

end Does

namespace Follows

theorem start (u : disk.Usable process) : Follows process codec store (start disk) :=
  ⟨.start disk, u, fun _ => rfl⟩

theorem step (ht : store.temp ≠ store.path) (f : Follows process codec store s) (hr : Readable codec e) (hp : Present s e)
    (t : Turns process codec store grant s e s') : Follows process codec store s' where
  sound  := f.sound.step ht hr t.moves
  usable := t.usable f.usable hp
  awaits := (t.does ht f.sound f.usable hp).awaits

theorem refines (ht : store.temp ≠ store.path) (u : disk.Usable process)
    (t : Trace (Guard (Fires <| Solo.step process codec store grant) fun s e _ => Readable codec e ∧ Present s e) sees
      (Solo.start disk) os s) :
    Follows process codec store s ∧ Trace (Fires <| Atomic.step grant) Atomic.sees (Atomic.start (disk.stored process codec store)) os
      (atomic process codec store s) := by
  have inv : ∀ s e s', Follows process codec store s → Guard (Fires <| Solo.step process codec store grant)
      (fun s e _ => Readable codec e ∧ Present s e) s e s' → Follows process codec store s' :=
    fun _ _ _ f g => f.step ht g.meets.1 g.meets.2 (step_turns g.fires)
  have ⟨_, r⟩ := t.run
  refine ⟨r.preserves (start u) inv, t.refines (atomic process codec store) (start u) inv fun s e s' f g => ?_⟩
  exact ((step_turns g.fires).does ht f.sound f.usable g.meets.2).trace f.awaits

-- What a call goes on with is what the file holds.
theorem found (ht : store.temp ≠ store.path) (u : disk.Usable process)
    (r : Run (Guard (Fires <| Solo.step process codec store grant) fun s e _ => Readable codec e ∧ Present s e)
      (Solo.start disk) es s) :
    Follows process codec store s ∧ Atomic.Found (s.disk.stored process codec store) s.grant.at := by
  have ⟨_, t⟩ := Trace.of_run (O := sees) r
  have ⟨f, t⟩ := refines ht u t
  have ⟨_, r⟩ := t.run
  exact ⟨f, Atomic.found r⟩

-- A file with a credential is to be discarded only directly after a step of a load has failed.
theorem discards_failed (ht : store.temp ≠ store.path) (f : Follows process codec store s) (t : Turns process codec store grant s e s')
    (hd : s'.grant.at = .discard call x) (hl : s'.disk.load process codec store = .ok (some c)) :
    ∃ n fault, e = .io n (some fault) ∧ x = .unusable (StoreError.io fault).text := by
  cases t.moves
  case kill => cases hd
  case grant ho m =>
    obtain rfl := m.loaded_of_discard hd
    cases ho
  case advances hc _ _ _ =>
    have hn := hc ▸ f.sound.call
    rw [show s.grant.at = _ from hd] at hn
    cases hn
  case saved m => cases m.loaded_of_discard hd
  case removes m => cases m.loaded_of_discard hd
  case loaded hc ha hs m =>
    have hx := m.loaded_of_discard hd
    obtain ⟨_, _, hq⟩ | ⟨_, _, _, _, hr, hd⟩ := awaits_cases (hc ▸ f.sound.call)
    · obtain ⟨rfl, ⟨_, h, _⟩ | ⟨_, h, rfl | ⟨e, rfl, rfl | ⟨_, _, rfl⟩⟩⟩⟩ := load_step hq ha hs <;> cases h
      · rw [show s.disk.load process codec store = _ from hl] at hx
        cases hx
      · cases hx; exact ⟨_, e, rfl, rfl⟩
      · cases hx
    · exact absurd hs (save_not_loaded ht hr hd ha)

theorem discard_last (ht : store.temp ≠ store.path) (u : disk.Usable process)
    (r : Run (Guard (Fires <| Solo.step process codec store grant) fun s e _ => Readable codec e ∧ Present s e)
      (Solo.start disk) es s)
    (hd : s.grant.at = .discard call x) (hl : s.disk.load process codec store = .ok (some c)) :
    ∃ es' n fault, es = es' ++ [.io n (some fault)] ∧ x = .unusable (StoreError.io fault).text := by
  obtain rfl | ⟨es', e, rfl⟩ := List.eq_nil_or_concat es
  · cases r.nil_eq; cases hd
  · rw [List.concat_eq_append] at r ⊢
    have ⟨_, r, g⟩ := r.snoc_inv
    have ⟨n, fault, he, hx⟩ := discards_failed ht (found ht u r).1 (step_turns g.fires) hd hl
    exact ⟨es', n, fault, by rw [he], hx⟩

end Follows

section Examples

theorem guarded (r : Run (Fires <| step process codec store grant) s es s')
    (h : ∀ e ∈ es, Readable codec e ∧ ∀ s, Present s e) :
    Run (Guard (Fires <| step process codec store grant) fun s e _ => Readable codec e ∧ Present s e) s es s' :=
  r.guard h |>.mono fun g => ⟨g.fires, g.meets.1, g.meets.2 _⟩

-- A node, and what it is granted.
def grants : DeviceGrant where
  url     := "https://attacca.example"
  request := ⟨"zyris-docker", "srv-a", "linux/x86_64", ["tool_node:serve"]⟩
  text _  := ""

def enrolls (c : Credential) : List Event :=
  [.grant .bearer, .io 0 none, .grant (.enrolled (.ok ⟨"WXYZ", "https://attacca.example/device", 600⟩)),
    .grant (.polled (.ok (.granted c)))]

theorem usable_absent : Disk.Usable ⟨false, 0o022⟩ none where
  stays      := by rintro _ ⟨⟩
  accessible := .inr (by decide)

theorem usable_keeps (process : Process) (store : FileCredentialStore) (b : Bytes) :
    Disk.Usable process (some (keeps store b)) where
  stays      := by rintro _ ⟨⟩ _ ⟨⟩
  accessible := Folder.maySearch_of_mayChange (keeps_mayChange process store b)

end Examples

theorem refines_atomic (process : Process) (grant : DeviceGrant) (credentialDir : PathBuf Bytes) (serverUrl profile : String) :
    let store := ofServer credentialDir serverUrl profile
    (u : disk.Usable process) →
    (t : Trace (Guard (Fires <| step process codec store grant) fun s e _ => Readable codec e ∧ Present s e) sees
      (start disk) os s) →
    Trace (Fires <| Atomic.step grant) Atomic.sees (Atomic.start (disk.stored process codec store)) os
      (atomic process codec store s) :=
  fun u t => (Follows.refines (temp_ne_path credentialDir serverUrl profile) u t).2

-- The node enrolls and is killed, and the restarted one fails to read the file.
theorem refines_atomic_killed :
    let store := ofServer [.root, .name [118]] "wss://attacca.example" "default"
    let codec := prettyCodec [sample "zc_a"]
    let process : Process := ⟨false, 0o022⟩
    ∃ os s, Trace (Guard (Fires <| step process codec store grants) fun s e _ => Readable codec e ∧ Present s e) sees
        (start none) os s ∧
      Trace (Fires <| Atomic.step grants) Atomic.sees (Atomic.start .empty) os
        ⟨.credential (sample "zc_a"), ⟨none, [], .discard .bearer (.unusable (StoreError.io ioInput).text)⟩, none⟩ := by
  intro store codec process
  have ht := temp_ne_path [.root, .name [118]] "wss://attacca.example" "default"
  have hr : Reads codec (codec.encode (sample "zc_a")) (sample "zc_a") :=
    prettyCodec_reads (List.mem_singleton_self _) rfl (by simp)
  have ⟨v, r, hv⟩ := Disk.Save.save_succeeds process codec store rfl (pretty_ne_nil (sample "zc_a"))
  have hl := (Disk.Save.Sound.of_run ht hr r).renamed hv
  have ⟨s, r₁, hs⟩ : ∃ s, Run (Fires <| step process codec store grants) (start none) (enrolls (sample "zc_a")) s ∧
      s.disk = none ∧ s.grant = ⟨none, s.grant.log, .save (sample "zc_a")⟩ ∧ s.call = some (save codec store (sample "zc_a")) :=
    ⟨_, Run.iff_replay.mpr rfl, rfl, rfl, rfl⟩
  have r₂ := save_run grants r hv ⟨nofun, nofun⟩ rfl hs
  have ⟨os, t⟩ := Trace.of_run (O := sees) <| guarded (r₁.append r₂ |>.append <| restart_unread ..) fun e he => by
    simp only [enrolls, List.mem_append, List.mem_cons, List.mem_replicate, List.not_mem_nil, or_false] at he
    obtain ((rfl | rfl | rfl | rfl) | ⟨_, rfl⟩) | (rfl | rfl | rfl) := he
    case inl.inl.inr.inr.inr => exact ⟨hr, fun _ => trivial⟩
    case inr.inr.inr         => exact ⟨trivial, fun _ _ => by rintro ⟨⟩⟩
    all_goals exact ⟨trivial, fun _ => trivial⟩
  have ta := refines_atomic process grants _ _ _ usable_absent t
  rw [show Disk.stored process codec store none = .empty from rfl] at ta
  refine ⟨os, _, t, ?_⟩
  simpa [atomic, enter, Disk.stored_eq_credential.mpr hl] using ta

theorem enrolls_absent (process : Process) (grant : DeviceGrant) (credentialDir : PathBuf Bytes) (serverUrl profile : String) :
    let store := ofServer credentialDir serverUrl profile
    (u : disk.Usable process) →
    (r : Run (Guard (Fires <| step process codec store grant) fun s e _ => Readable codec e ∧ Present s e) (start disk) es s) →
    (s.grant.at.enrolling ∨ ∃ c, s.grant.at = .save c) → s.disk.load process codec store = .ok none := by
  intro store u r ha
  have ⟨_, f⟩ := Follows.found (temp_ne_path credentialDir serverUrl profile) u r
  obtain ha | ⟨c, ha⟩ := ha
  · exact Disk.stored_eq_empty.mp <| (Atomic.found_enrolling ha).mp f
  · rw [ha] at f
    exact Disk.stored_eq_empty.mp f

-- The credential is granted, and nothing of it is written yet.
theorem enrolls_absent_granted :
    let store := ofServer [.root, .name [118]] "wss://attacca.example" "default"
    let codec := prettyCodec [sample "zc_a"]
    let process : Process := ⟨false, 0o022⟩
    ∃ s, Run (Fires <| step process codec store grants) (start none) (enrolls (sample "zc_a")) s ∧
      s.disk.load process codec store = .ok none := by
  intro store codec process
  have hr : Reads codec (codec.encode (sample "zc_a")) (sample "zc_a") :=
    prettyCodec_reads (List.mem_singleton_self _) rfl (by simp)
  have ⟨s, r, hs⟩ : ∃ s, Run (Fires <| step process codec store grants) (start none) (enrolls (sample "zc_a")) s ∧
      s.grant.at = .save (sample "zc_a") :=
    ⟨_, Run.iff_replay.mpr rfl, rfl⟩
  refine ⟨s, r, enrolls_absent process grants _ _ _ usable_absent (guarded r fun e he => ?_) (.inr ⟨_, hs⟩)⟩
  simp only [enrolls, List.mem_cons, List.not_mem_nil, or_false] at he
  obtain rfl | rfl | rfl | rfl := he
  case inr.inr.inr => exact ⟨hr, fun _ => trivial⟩
  all_goals exact ⟨trivial, fun _ => trivial⟩

theorem loses_refused (process : Process) (grant : DeviceGrant) (credentialDir : PathBuf Bytes) (serverUrl profile : String) :
    let store := ofServer credentialDir serverUrl profile
    (u : disk.Usable process) →
    (r : Run (Guard (Fires <| step process codec store grant) fun s e _ => Readable codec e ∧ Present s e) (start disk) es s) →
    (g : Guard (Fires <| step process codec store grant) (fun s e _ => Readable codec e ∧ Present s e) s e s') →
    (hl : s.disk.load process codec store = .ok (some c)) →
    s'.disk.load process codec store = .ok (some c) ∨
    s'.disk.load process codec store = .ok none ∧
      ((∃ r, s.grant.at = .clear (some r) ∧ r.secret = c.secret) ∨
      ∃ call es' n fault, es = es' ++ [.io n (some fault)] ∧
        s.grant.at = .discard call (.unusable (StoreError.io fault).text)) := by
  intro store u r g hl
  have ht := temp_ne_path credentialDir serverUrl profile
  obtain ⟨w, f⟩ := Follows.found ht u r
  have hc := Disk.stored_eq_credential.mpr hl
  simp only [← Disk.stored_eq_credential, ← Disk.stored_eq_empty]
  cases (step_turns g.fires).does ht w.sound w.usable g.meets.2
  case kill | own  => exact .inl hc
  case rests hs    => exact .inl (hs.trans hc)
  case serves hm h =>
    rw [hc] at f h
    simp only [enter]
    rw [h]
    refine (Atomic.after_cases f (DeviceGrant.step_moves hm)).imp_right <| And.imp_right <| Or.imp_right ?_
    rintro ⟨call, x, hd⟩
    obtain ⟨es', n, fault, he, hx⟩ := Follows.discard_last ht u r hd hl
    exact ⟨call, es', n, fault, he, hx ▸ hd⟩

-- The server refuses the stored credential, and the node forgets it.
theorem loses_refused_removed :
    let store := ofServer [.root, .name [118]] "wss://attacca.example" "default"
    let codec := prettyCodec [sample "zc_a"]
    let process : Process := ⟨false, 0o022⟩
    let disk : Disk := some (keeps store (pretty (sample "zc_a")))
    ∃ s s', Run (Fires <| step process codec store grants) (start disk)
        ([.grant .bearer] ++ List.replicate 2 (.io 0 none) ++ [.grant .forgetRefused] ++ List.replicate 2 (.io 0 none)) s ∧
      s.disk.load process codec store = .ok (some (sample "zc_a")) ∧
      step process codec store grants s (.io 0 none) = some s' ∧ s'.disk.load process codec store = .ok none := by
  intro store codec process disk
  have hl : disk.load process codec store = .ok (some (sample "zc_a")) :=
    load_keeps <| prettyCodec_reads (List.mem_singleton_self _) rfl (by simp)
  let held : DeviceGrant.State := ⟨sample "zc_a", [], .idle⟩
  let clearing : State := ⟨disk, ⟨none, [], .clear (some (sample "zc_a"))⟩, none, none⟩
  let removed : Folder := { keeps store (pretty (sample "zc_a")) with
    files := (keeps store (pretty (sample "zc_a"))).files.unlink store.path, foreign := none }
  have r₁ : Run (Fires <| step process codec store grants) (start disk) [.grant .bearer] _ := .single rfl
  have r₂ := load_run (s := ⟨disk, ⟨none, [], .load .bearer⟩, some .read, none⟩) grants hl rfl rfl
  have r₃ : Run (Fires <| step process codec store grants) (enter codec store disk (held, some (.bearer (.ok "zc_a"))))
    [.grant .forgetRefused] _ := .single rfl
  have r₄ := load_run (s := ⟨disk, ⟨none, [], .load (.forgetRefused (sample "zc_a"))⟩, some .read, none⟩) grants
    (o := (clearing.grant, none)) hl rfl (by simp [DeviceGrant.step, DeviceGrant.stored, DeviceGrant.State.suspend, clearing])
  have r : Run (Fires <| step process codec store grants) _ _ clearing := r₁.append r₂ |>.append r₃ |>.append r₄
  have hs : disk.remove process store none = (some removed, .ok ()) := remove_keeps process store (pretty (sample "zc_a"))
  have h : Fires (step process codec store grants) clearing (.io 0 none)
      ⟨some removed, ⟨none, [], .idle⟩, none, some (.forgetRefused (.ok true))⟩ := by
    simp only [Fires, step, clearing, remove, hs]
    rfl
  refine ⟨clearing, _, r, hl, h, ?_⟩
  have hf : clearing.disk.load process codec store = .ok (some (sample "zc_a")) := hl
  have hu := usable_keeps process store (pretty (sample "zc_a"))
  have hr := loses_refused (c := sample "zc_a") process grants _ _ _ hu (guarded r fun e he => ?_) ⟨h, trivial, trivial⟩ hf
  case refine_1 =>
    simp only [List.mem_append, List.mem_replicate, List.mem_singleton] at he
    obtain ((rfl | ⟨_, rfl⟩) | rfl) | ⟨_, rfl⟩ := he
    all_goals exact ⟨trivial, fun _ => trivial⟩
  obtain hn | ⟨hn, _⟩ := hr
  case inl => cases (Disk.load_unlinked hu.accessible).symm.trans hn
  case inr => exact hn

end Solo
