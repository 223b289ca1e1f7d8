import ZyrisDocker.Runtime.Store.Volume

open Text Transition

namespace FileCredentialStore

theorem fileName_suffix (serverUrl profile : String) :
    ∃ stem, utf8 (fileName serverUrl profile).toList = stem ++ utf8 ".json".toList := by
  simp only [fileName, String.toList_append, utf8_append]
  exact ⟨_, rfl⟩

-- The names end in different letters.
theorem temp_ne_path (credentialDir : PathBuf Bytes) (serverUrl profile : String) :
    (ofServer credentialDir serverUrl profile).temp ≠ (ofServer credentialDir serverUrl profile).path := by
  intro h
  have ⟨stem, hs⟩ := fileName_suffix serverUrl profile
  have hj : (utf8 ".json".toList).getLast? = some 110 := by decide
  have ht : (PathBuf.dot :: utf8 "tmp".toList).getLast? = some 112 := by decide
  simp only [temp, ofServer, PathBuf.withExtension, PathBuf.fileName, hs, List.getLast?_concat, List.dropLast_concat,
    List.append_cancel_left_eq, List.cons.injEq, Component.name.injEq, and_true] at h
  have h := congrArg List.getLast? h
  rw [List.getLast?_append, List.getLast?_append, hj, ht] at h
  cases h

-- A save is between its `File::create` and its rename.
def Suspension.writing : Suspension → Bool
  | restrict .. | write .. | sync _ | rename => true
  | _                                        => false

end FileCredentialStore

namespace Volume

open FileCredentialStore

variable {codec : Codec} {store : FileCredentialStore} {umask : Nat} {known : Credential → Prop}
variable {dir : Directory (PathBuf Bytes)} {request : Request} {p p' : Suspension} {b : Bytes}

-- What a load makes a credential of.
structure Reads (codec : Codec) (bytes : Bytes) (c : Credential) : Prop where
  decodes : codec.decode bytes = .ok c
  version : c.version = credentialVersion

structure Complete (codec : Codec) (x : Inode) (c : Credential) : Prop extends Reads codec x.bytes c where
  privy : x.mode &&& 0o777 &&& 0o077 = 0

-- The file that a save writes, as far as it was written.
structure Writes (store : FileCredentialStore) (dir : Directory (PathBuf Bytes)) (file : Nat) (bytes : Bytes) : Prop where
  entry : dir.entries store.temp = some file
  bytes : (dir.inodes file).bytes = bytes

-- What is known about a call from where it is suspended.
def Tracks (codec : Codec) (store : FileCredentialStore) (known : Credential → Prop) (dir : Directory (PathBuf Bytes)) :
    Request → Suspension → Prop
  | .save c, .createDirAll b | .save c, .restrictDir b | .save c, .create b => b = codec.encode c
  | .save c, .restrict f b => b = codec.encode c ∧ Writes store dir f []
  | .save c, .write f b w  => b = codec.encode c ∧ Writes store dir f (b.take w) ∧ (dir.inodes f).mode = 0o600 ∧ w < b.length
  | .save c, .sync f       => Writes store dir f (codec.encode c) ∧ (dir.inodes f).mode = 0o600
  | .save c, .rename       => ∃ f, Writes store dir f (codec.encode c) ∧ (dir.inodes f).mode = 0o600
  | .save _, .saved r      => r = .ok ()
  | .load,   .read         => True
  | .load,   .metadata b   => (dir.find store.path).isSome ∧ ∃ c, known c ∧ Reads codec b c
  | .load,   .loaded r     => r = .ok none ∨ ∃ c, known c ∧ r = .ok (some c)
  | _,       _             => False

-- What the credential file holds.
def Keeps (codec : Codec) (store : FileCredentialStore) (known : Credential → Prop) (dir : Directory (PathBuf Bytes)) : Prop :=
  ∀ x, dir.find store.path = some x → ∃ c, known c ∧ Complete codec x c

theorem check_of_reads (h : Reads codec b c) (hm : m &&& 0o777 &&& 0o077 = 0) :
    check codec store b m = .ok (some c) := by
  simp [FileCredentialStore.check, hm, h.decodes, h.version]

variable (ht : store.temp ≠ store.path)

include ht in
theorem Writes.path_ne (h : Writes store dir f b) : dir.entries store.path ≠ some f :=
  fun hp => ht (dir.distinct h.entry hp)

-- A step by a call that is not writing, and does not start to, leaves the directory as it is.
theorem serve_dir (hw : p.writing = false) (hc : ∀ b, p ≠ .create b) :
    (serve store umask dir n p).1 = dir := by
  cases p <;> simp [Suspension.writing] at hw hc <;> simp only [serve] <;> split <;> rfl

-- A rename puts the file that was written in the place of the credential file.
theorem rename_places (umask n : Nat) (t : Tracks codec store known dir (.save c) .rename) :
    ∃ dir', serve store umask dir n .rename = (dir', .done) ∧
      ∃ x, dir'.find store.path = some x ∧ x.bytes = codec.encode c ∧ x.mode = 0o600 := by
  have ⟨f, hf, hm⟩ := t
  have ⟨dir', hd, hi, hp, _⟩ := Directory.rename_eq_some (n := store.path) hf.entry
  refine ⟨dir', by simp only [serve, hd], _, Directory.find_eq_of_entries hp, ?_, ?_⟩
  · rw [hi, hf.bytes]
  · rw [hi, hm]

-- What a step leaves of the credential file.
include ht in
theorem serve_path (umask n : Nat) (t : Tracks codec store known dir (.save c) p) :
    (serve store umask dir n p).1.find store.path = dir.find store.path ∨
    ∃ x, (serve store umask dir n p).1.find store.path = some x ∧ x.bytes = codec.encode c ∧ x.mode = 0o600 := by
  cases p
  case create b => exact .inl (Directory.find_create_of_ne ht.symm)
  case restrict f b => exact .inl (Directory.find_modify_of_ne (t.2.path_ne ht))
  case write f b w => exact .inl (Directory.find_modify_of_ne (t.2.1.path_ne ht))
  case rename =>
    have ⟨dir', hd, hx⟩ := rename_places umask n t
    exact .inr (hd ▸ hx)
  case read | metadata => cases t
  all_goals exact .inl rfl

theorem Writes.overwrite (h : Writes store dir f (b.take w)) (hw : w ≤ b.length) (piece : Bytes) :
    Writes store (dir.write f w piece) f (b.take w ++ piece) where
  entry := h.entry
  bytes := by
    have ho := Text.Bytes.overwrite_length (b.take w) piece
    rw [List.length_take_of_le hw] at ho
    simpa [Directory.write, h.bytes] using ho

-- The next piece of what is left to write.
theorem Writes.advance (h : Writes store dir f (b.take w)) (hw : w ≤ b.length) (m : Nat) :
    Writes store (dir.write f w <| (b.drop w).take m) f (b.take <| w + ((b.drop w).take m).length) := by
  have ht : b.take (w + ((b.drop w).take m).length) = b.take w ++ (b.drop w).take m := by
    rw [List.take_add]
    exact congrArg _ (List.take_eq_take_iff.mpr (by simp))
  exact ht ▸ h.overwrite hw _

theorem Writes.chmod (h : Writes store dir f b) : Writes store (dir.chmod f mode) f b where
  entry := h.entry
  bytes := by simpa [Directory.chmod] using h.bytes

theorem tracks_writeAll (hb : b = codec.encode c) (h : Writes store dir f (b.take w))
    (hm : (dir.inodes f).mode = 0o600) : Tracks codec store known dir (.save c) (writeAll f b w) := by
  simp only [writeAll]
  split
  case isTrue hw  => exact ⟨hb, h, hm, hw⟩
  case isFalse hw =>
    refine ⟨⟨h.entry, ?_⟩, hm⟩
    rw [h.bytes, ← hb, List.take_of_length_le (Nat.le_of_not_lt hw)]

theorem Tracks.save_step (t : Tracks codec store known dir (.save c) p)
    (h : resume codec store p (serve store umask dir n p).2 = some p') :
    Tracks codec store known (serve store umask dir n p).1 (.save c) p' := by
  cases p
  case createDirAll | restrictDir => cases h; exact t
  case create b =>
    cases h
    exact ⟨t, Directory.entries_create, Directory.bytes_create⟩
  case restrict f b =>
    cases h
    refine tracks_writeAll t.1 (by simpa [serve] using t.2.chmod) ?_
    simp [serve, Directory.chmod]
  case write f b w =>
    have ⟨hb, hf, hm, hw⟩ := t
    simp only [serve] at h ⊢
    have next := hf.advance (Nat.le_of_lt hw) (max 1 <| b.length - w - n)
    have hn : ((b.drop w).take <| max 1 <| b.length - w - n).length ≠ 0 := by
      simp
      omega
    generalize (b.drop w).take (max 1 <| b.length - w - n) = piece at h next hn ⊢
    cases hl : piece.length
    case zero => exact absurd hl hn
    case succ m =>
      rw [hl] at h
      cases h
      exact tracks_writeAll hb (hl ▸ next) (by simpa [Directory.write] using hm)
  case sync f => cases h; exact ⟨f, t⟩
  case rename =>
    have ⟨_, hd, _⟩ := rename_places umask n t
    rw [hd] at h
    cases h
    rfl
  case read | metadata | loaded => cases t
  case saved => cases h

theorem Tracks.load_step (t : Tracks codec store known dir .load p) (k : Keeps codec store known dir)
    (h : resume codec store p (serve store umask dir n p).2 = some p') :
    Tracks codec store known (serve store umask dir n p).1 .load p' := by
  cases p
  case read =>
    cases hx : dir.find store.path <;> simp only [serve, hx] at h ⊢ <;> cases h
    case none   => exact .inl rfl
    case some x =>
      have ⟨c, hc, hx'⟩ := k x hx
      exact ⟨by simp [hx], c, hc, hx'.toReads⟩
  case metadata b =>
    have ⟨hs, c, hc, hr⟩ := t
    have ⟨x, hx⟩ := Option.isSome_iff_exists.mp hs
    have ⟨_, _, hx'⟩ := k x hx
    simp only [serve, hx] at h ⊢
    cases h
    exact .inr ⟨c, hc, check_of_reads hr hx'.privy⟩
  case loaded => cases h
  all_goals cases t

include ht in
theorem Keeps.save_step (k : Keeps codec store known dir) (t : Tracks codec store known dir (.save c) p)
    (hc : known c) (hr : Reads codec (codec.encode c) c) : Keeps codec store known (serve store umask dir n p).1 := by
  intro x hx
  cases serve_path ht umask n t
  case inl hp => exact k x (hp ▸ hx)
  case inr hp =>
    have ⟨x', hx', hb, hm⟩ := hp
    cases hx.symm.trans hx'
    refine ⟨c, hc, hb ▸ hr, ?_⟩
    rw [hm]
    decide

theorem Tracks.load_dir (t : Tracks codec store known dir .load p) : (serve store umask dir n p).1 = dir := by
  apply serve_dir
  case hw => cases p <;> first | rfl | exact t.elim
  case hc => intro b hb; cases hb; exact t

-- The file does not go away.
include ht in
theorem serve_isSome (t : Tracks codec store known dir request p) (h : (dir.find store.path).isSome) :
    ((serve store umask dir n p).1.find store.path).isSome := by
  cases request
  case load   => rwa [t.load_dir]
  case save c =>
    cases serve_path ht umask n t
    case inl hp => rwa [hp]
    case inr hp =>
      have ⟨x, hx, _⟩ := hp
      simp [hx]

-- A call that is not writing is not concerned by what others do.
theorem Tracks.frame (t : Tracks codec store known dir request p) (hw : p.writing = false)
    (hs : (dir.find store.path).isSome → (dir'.find store.path).isSome) : Tracks codec store known dir' request p := by
  cases request <;> cases p <;> first | exact t | exact ⟨hs t.1, t.2⟩ | cases hw

theorem writing_of_resume (h : resume codec store p a = some p') (hw : p'.writing) : p.writing ∨ ∃ b, p = .create b := by
  cases p
  case create b => exact .inr ⟨b, rfl⟩
  case restrict | write | sync | rename => exact .inl rfl
  all_goals
    exfalso
    cases a <;> simp only [resume] at h
    all_goals
      try split at h
      all_goals
        cases h
        try cases hw

section Calls

variable {s s' : State ι} {e : Event ι} {es : List (Event ι)} {requests : ι → Request}

-- A save creates the temp file only while no other save is between its create and its rename.
def Exclusive (s : State ι) (e : Event ι) (_ : State ι) : Prop :=
  ∀ b, s.calls e.call = .create b → ∀ i, (s.calls i).writing = false

structure Sound (codec : Codec) (store : FileCredentialStore) (known : Credential → Prop) (requests : ι → Request)
    (s : State ι) : Prop where
  keeps  : Keeps codec store known s.dir
  tracks : ∀ i, Tracks codec store known s.dir (requests i) (s.calls i)
  single : (s.calls i).writing → (s.calls j).writing → i = j

-- The credentials that are saved, or were stored before.
structure Known (codec : Codec) (known : Credential → Prop) (requests : ι → Request) : Prop where
  known : requests i = .save c → known c
  reads : requests i = .save c → Reads codec (codec.encode c) c

namespace Sound

theorem init (k : Keeps codec store known dir) : Sound codec store known requests (init codec store dir requests) where
  keeps    := k
  tracks i := by
    simp only [Volume.init, start, save]
    cases requests i
    case load => trivial
    case save =>
      cases store.path.parent
      case none => rfl
      case some => rfl
  single {i _} hi := by
    simp only [Volume.init, start, save] at hi
    split at hi
    case h_1 => split at hi <;> cases hi
    case h_2 => cases hi

variable (kn : Known codec known requests)

include ht kn in
theorem keep (d : Sound codec store known requests s) (i : ι) (n : Nat) :
    Keeps codec store known (serve store umask s.dir n (s.calls i)).1 := by
  have t := d.tracks i
  cases hr : requests i <;> rw [hr] at t
  case load => exact t.load_dir.symm ▸ d.keeps
  case save => exact d.keeps.save_step ht t (kn.known hr) (kn.reads hr)

theorem self (d : Sound codec store known requests s) (i : ι)
    (h : resume codec store (s.calls i) (serve store umask s.dir n (s.calls i)).2 = some p) :
    Tracks codec store known (serve store umask s.dir n (s.calls i)).1 (requests i) p := by
  have t := d.tracks i
  cases hr : requests i <;> rw [hr] at t
  case load => exact t.load_step d.keeps h
  case save => exact t.save_step h

include ht in
theorem other (d : Sound codec store known requests s) (hx : Exclusive s e s') (hi : i ≠ e.call) :
    Tracks codec store known (serve store umask s.dir e.short (s.calls e.call)).1 (requests i) (s.calls i) := by
  cases hw : (s.calls i).writing
  case false => exact (d.tracks i).frame hw (serve_isSome ht (d.tracks e.call))
  case true  =>
    have hn : (s.calls e.call).writing = false := by
      by_contra hc
      exact hi <| d.single hw (by simpa using hc)
    have hc (b) : s.calls e.call ≠ .create b := fun hb => by simp [hx b hb i] at hw
    rw [serve_dir hn hc]
    exact d.tracks i

variable [DecidableEq ι]

theorem step_inv (h : Volume.step codec store umask s e = some s') :
    ∃ p, resume codec store (s.calls e.call) (serve store umask s.dir e.short (s.calls e.call)).2 = some p ∧
      s' = { dir := (serve store umask s.dir e.short (s.calls e.call)).1, calls := Function.update s.calls e.call p } := by
  have ⟨p, hp, hs⟩ := Option.map_eq_some_iff.mp h
  exact ⟨p, hp, hs.symm⟩

include ht kn in
theorem step (d : Sound codec store known requests s) (hx : Exclusive s e s')
    (h : Volume.step codec store umask s e = some s') :
    Sound codec store known requests s' := by
  have ⟨p, hp, hs⟩ := step_inv h
  subst hs
  -- Only the acting call can have started to write, and then nobody else is writing.
  have quiet {i} (hi : i ≠ e.call) (hw : p.writing) (hv : (s.calls i).writing) : False := by
    cases writing_of_resume hp hw
    case inl hc => exact hi (d.single hv hc)
    case inr hc =>
      have ⟨b, hb⟩ := hc
      simp [hx b hb i] at hv
  refine ⟨d.keep ht kn e.call e.short, fun i => ?_, fun {i j} hi hj => ?_⟩
  case refine_1 =>
    by_cases hi : i = e.call
    · subst hi
      simpa using d.self e.call hp
    · simpa [hi] using d.other ht hx hi
  case refine_2 =>
    by_cases hic : i = e.call <;> by_cases hjc : j = e.call
    · rw [hic, hjc]
    · exact (quiet hjc (by simpa [hic] using hi) (by simpa [hjc] using hj)).elim
    · exact (quiet hic (by simpa [hjc] using hj) (by simpa [hic] using hi)).elim
    · exact d.single (by simpa [hic] using hi) (by simpa [hjc] using hj)

include ht kn in
theorem of_run (k : Keeps codec store known dir)
    (r : Run (Guard (Fires (Volume.step codec store umask)) Exclusive) (Volume.init codec store dir requests) es s) :
    Sound codec store known requests s :=
  r.preserves (init k) fun _ _ _ d h => d.step ht kn h.meets h.fires

end Sound

-- The credentials that a call saves, or that the credential file held in the beginning.
def Saved (codec : Codec) (store : FileCredentialStore) (dir : Directory (PathBuf Bytes)) (requests : ι → Request)
    (c : Credential) : Prop :=
  (∃ i, requests i = .save c) ∨ ∃ x, dir.find store.path = some x ∧ Complete codec x c

theorem known_saved (hr : ∀ i c, requests i = .save c → Reads codec (codec.encode c) c) :
    Known codec (Saved codec store dir requests) requests where
  known h := .inl ⟨_, h⟩
  reads h := hr _ _ h

theorem keeps_saved (hd : ∀ x, dir.find store.path = some x → ∃ c, Complete codec x c) :
    Keeps codec store (Saved codec store dir requests) dir :=
  fun x hx => have ⟨c, hc⟩ := hd x hx; ⟨c, .inr ⟨x, hx, hc⟩, hc⟩

variable [DecidableEq ι]

theorem step_of_serve (h : s.calls i = p) (hs : serve store umask s.dir n p = (dir', a))
    (hp : resume codec store p a = some p') :
    step codec store umask s ⟨i, n⟩ = some { dir := dir', calls := Function.update s.calls i p' } := by
  simp [step, h, hs, hp]

theorem volume_sound (credentialDir : PathBuf Bytes) (serverUrl profile : String) :
    let store := ofServer credentialDir serverUrl profile
    (hr : ∀ i c, requests i = .save c → Reads codec (codec.encode c) c) →
    (hd : ∀ x, dir.find store.path = some x → ∃ c, Complete codec x c) →
    (r : Run (Guard (Fires (step codec store umask)) Exclusive) (init codec store dir requests) es s) →
    (∀ i r, s.calls i = .loaded r → r = .ok none ∨ ∃ c, Saved codec store dir requests c ∧ r = .ok (some c)) ∧
    (∀ i c r, requests i = .save c → s.calls i = .saved r → r = .ok ()) ∧
    (∀ i c n, requests i = .save c → s.calls i = .rename → ∃ s', step codec store umask s ⟨i, n⟩ = some s' ∧
      s'.calls i = .saved (.ok ()) ∧ ∃ x, s'.dir.find store.path = some x ∧ x.bytes = codec.encode c ∧ Complete codec x c) := by
  intro store hr hd r
  have d := Sound.of_run (temp_ne_path credentialDir serverUrl profile) (known_saved hr) (keeps_saved hd) r
  refine ⟨fun i r h => ?_, fun i c r hi h => ?_, fun i c n hi h => ?_⟩
  case refine_1 =>
    have t := h ▸ d.tracks i
    cases hi : requests i <;> rw [hi] at t
    case load => exact t
    case save => exact t.elim
  case refine_2 =>
    have t := h ▸ hi ▸ d.tracks i
    exact t
  case refine_3 =>
    have t := h ▸ hi ▸ d.tracks i
    have ⟨dir', hs, x, hx, hb, hm⟩ := rename_places umask n t
    refine ⟨_, step_of_serve h hs rfl, Function.update_self .., x, hx, hb, ?_⟩
    exact ⟨hb ▸ hr i c hi, by rw [hm]; decide⟩

-- A save on its own gets as far as to have written the temp file.
theorem save_syncs (codec : Codec) (store : FileCredentialStore) (umask : Nat) {i : ι}
    (hs : s.calls i = .createDirAll b) (hb : b ≠ []) (hn : s.dir.entries store.temp = none)
    (hw : ∀ j, (s.calls j).writing = false) :
    ∃ s', Run (Guard (Fires (step codec store umask)) Exclusive) s (List.replicate 5 ⟨i, 0⟩) s' ∧
      s'.calls = Function.update s.calls i (.sync s.dir.fresh) ∧ s'.dir.entries store.temp = some s.dir.fresh ∧
      s'.dir.inodes s.dir.fresh = ⟨b, 0o600⟩ := by
  have create :
      serve store umask s.dir 0 (.create b) = (s.dir.add store.temp ⟨[], newFileMode umask⟩, .opened s.dir.fresh) := by
    simp only [serve, Directory.create_of_absent hn]
  have hl := List.length_pos_iff.mpr hb
  have all : max 1 b.length = b.length := Nat.max_eq_right hl
  have write {dir} :
      serve store umask dir 0 (.write s.dir.fresh b 0) = (dir.write s.dir.fresh 0 b, .wrote b.length) := by
    simp [serve, all]
  have wrote : resume codec store (.write s.dir.fresh b 0) (.wrote b.length) = some (.sync s.dir.fresh) := by
    cases hb' : b.length
    case zero => omega
    case succ => simp [resume, writeAll, hb']
  have restricted : resume codec store (.restrict s.dir.fresh b) .done = some (.write s.dir.fresh b 0) := by
    simp [resume, writeAll, hl]
  refine ⟨_, .step ⟨step_of_serve hs rfl rfl, ?_⟩ <| .step ⟨step_of_serve (p := .restrictDir b) ?_ rfl rfl, ?_⟩ <|
    .step ⟨step_of_serve ?_ create rfl, ?_⟩ <|
    .step ⟨step_of_serve (p := .restrict s.dir.fresh b) ?_ rfl restricted, ?_⟩ <| .step ⟨step_of_serve ?_ write wrote, ?_⟩ .refl, ?_, ?_, ?_⟩
  case refine_5 =>
    intro _ _ j
    by_cases hj : j = i
    · simp [hj, Suspension.writing]
    · simpa [hj] using hw j
  case refine_10 => simp
  case refine_11 => simp [Directory.write, Directory.modify, Directory.chmod, Directory.add]
  case refine_12 => simp [Directory.write, Directory.modify, Directory.chmod, Directory.add, Text.Bytes.overwrite]
  case refine_2 | refine_4 | refine_6 | refine_8 => simp
  all_goals
    intro _ hc
    simp [hs] at hc

-- A save on its own stores its credential.
theorem save_stores (codec : Codec) (store : FileCredentialStore) (umask : Nat) {i : ι} (ht : store.temp ≠ store.path)
    (hs : s.calls i = .createDirAll b) (hb : b ≠ []) (hn : s.dir.entries store.temp = none)
    (hw : ∀ j, (s.calls j).writing = false) :
    ∃ s', Run (Guard (Fires (step codec store umask)) Exclusive) s (List.replicate 5 ⟨i, 0⟩ ++ [⟨i, 0⟩, ⟨i, 0⟩]) s' ∧
      s'.calls = Function.update s.calls i (.saved (.ok ())) ∧ s'.dir.entries store.temp = none ∧
      s'.dir.find store.path = some ⟨b, 0o600⟩ := by
  obtain ⟨s₁, r, hc, hf, hm⟩ := save_syncs codec store umask hs hb hn hw
  obtain ⟨dir', hd, hi, hp, ha⟩ := Directory.rename_eq_some (n := store.path) hf
  have rename : serve store umask s₁.dir 0 .rename = (dir', .done) := by simp only [serve, hd]
  have sync : s₁.calls i = .sync s.dir.fresh := by rw [hc, Function.update_self]
  have stores : Run (Guard (Fires (step codec store umask)) Exclusive) s₁ [⟨i, 0⟩, ⟨i, 0⟩] _ :=
    .step ⟨step_of_serve sync rfl rfl, fun _ hb => by simp [sync] at hb⟩ <|
    .step ⟨step_of_serve (Function.update_self ..) rename rfl, fun _ hb => by simp at hb⟩ .refl
  refine ⟨_, r.append stores, ?_, ha ht, ?_⟩
  · simp [hc]
  · rw [Directory.find_eq_of_entries hp, hi, hm]

-- One save has written the temp file when another one truncates it. Its rename then puts the empty
-- file in place.
theorem crossing_saves (codec : Codec) (store : FileCredentialStore) (umask : Nat) {i j k : ι}
    (hs : s.calls i = .sync f) (hj : s.calls j = .createDirAll b) (hk : s.calls k = .read) (hji : j ≠ i)
    (hkj : k ≠ j) (hki : k ≠ i) (hf : s.dir.entries store.temp = some f) (hm : (s.dir.inodes f).mode = 0o600) :
    ∃ s', Run (Fires (step codec store umask)) s [⟨j, 0⟩, ⟨j, 0⟩, ⟨j, 0⟩, ⟨i, 0⟩, ⟨i, 0⟩, ⟨k, 0⟩, ⟨k, 0⟩] s' ∧
      s'.calls k = .loaded (check codec store [] 0o600) := by
  have ⟨dir', hd, hi, hp, _⟩ :=
    Directory.rename_eq_some (d := s.dir.modify f ({ · with bytes := [] })) (n := store.path) hf
  have hx : dir'.find store.path = some ⟨[], 0o600⟩ := by
    rw [Directory.find_eq_of_entries hp, hi, Directory.inodes_modify, hm]
  have create : serve store umask s.dir 0 (.create b) = (s.dir.modify f ({ · with bytes := [] }), .opened f) := by
    simp only [serve, Directory.create_of_entries hf]
  have rename : serve store umask (s.dir.modify f ({ · with bytes := [] })) 0 .rename = (dir', .done) := by
    simp only [serve, hd]
  have read : serve store umask dir' 0 .read = (dir', .bytes []) := by
    simp only [serve, hx]
  have metadata : serve store umask dir' 0 (.metadata []) = (dir', .mode 0o600) := by
    simp only [serve, hx]
  refine ⟨_, .step (step_of_serve hj rfl rfl) <| .step (step_of_serve (p := .restrictDir b) ?_ rfl rfl) <|
    .step (step_of_serve ?_ create rfl) <| .step (step_of_serve (p := .sync f) ?_ rfl rfl) <|
    .step (step_of_serve ?_ rename rfl) <|
    .step (step_of_serve ?_ read rfl) <| .step (step_of_serve ?_ metadata rfl) .refl, Function.update_self ..⟩
  case refine_3 => simpa [hji.symm] using hs
  case refine_5 => simpa [hki, hkj] using hk
  all_goals exact Function.update_self ..

end Calls

-- The JSON text of a credential without scopes whose texts need no escapes.
def pretty (c : Credential) : Bytes :=
  let named (n : Named) :=
    s!"\x7b\n    \"id\": \"{n.id}\",\n    \"name\": \"{n.name}\",\n    \"slug\": \"{n.slug}\"\n  \x7d"
  let start := s!"\n  \"version\": {c.version},\n  \"secret\": \""
  let rest := s!"\",\n  \"system\": {named c.system},\n  \"program\": {named c.program},\n  \"scopes\": [],\n"
  let owner := s!"  \"owner_email\": \"{c.ownerEmail}\"\n\x7d"
  utf8 <| '\x7b' :: (start.toList ++ (c.secret.toList ++ (rest.toList ++ owner.toList)))

def prettyCodec (cs : List Credential) : Codec where
  encode   := pretty
  decode b := (cs.find? (pretty · = b)).elim (.error "EOF while parsing a value at line 1 column 0") .ok

def sample (secret : String) : Credential :=
  ⟨credentialVersion, secret, ⟨"s", "srv-a", "srv-a"⟩, ⟨"c", "zyris-docker", "zyris-docker"⟩, [], "e@example.com"⟩

theorem pretty_ne_nil (c : Credential) : pretty c ≠ [] :=
  fun h => List.cons_ne_nil _ _ (Text.utf8_injective (h.trans utf8_nil.symm))

theorem sample_of_pretty (h : pretty (sample secret) = pretty (sample secret')) : secret = secret' :=
  have h := List.append_cancel_left (List.cons.inj (Text.utf8_injective h)).2
  String.toList_inj.mp <| List.append_cancel_right h

theorem prettyCodec_reads (hc : c ∈ cs) (hv : c.version = credentialVersion)
    (hi : ∀ c' ∈ cs, pretty c' = pretty c → c' = c) :
    Reads (prettyCodec cs) (pretty c) c where
  version := hv
  decodes := by
    cases hf : cs.find? (pretty · = pretty c)
    case none => simpa using List.find?_eq_none.mp hf c hc
    case some c' =>
      have he := hi c' (List.mem_of_find?_eq_some hf) (by simpa using List.find?_some hf)
      simp [prettyCodec, hf, he]

theorem prettyCodec_rejects (cs : List Credential) : ∃ e, (prettyCodec cs).decode [] = .error e := by
  have hf : cs.find? (pretty · = []) = none := by simp [pretty_ne_nil]
  exact ⟨_, by simp [prettyCodec, hf]; rfl⟩

-- A node loads what another one saved, while a third one saves: the rename puts that credential in place.
theorem volume_sound_saved :
    let store := ofServer [.root, .name [118]] "wss://attacca.example" "default"
    let codec := prettyCodec [sample "zc_a", sample "zc_b"]
    let requests : Fin 3 → Request
      | 0 => .save (sample "zc_a")
      | 1 => .save (sample "zc_b")
      | 2 => .load
    ∃ es s s' r, Run (Fires (step codec store 0o022)) (init codec store .empty requests) es s ∧
      s.calls 0 = .saved (.ok ()) ∧ s.calls 1 = .rename ∧ s.calls 2 = .loaded r ∧
      (r = .ok none ∨ ∃ c, Saved codec store .empty requests c ∧ r = .ok (some c)) ∧
      step codec store 0o022 s ⟨1, 0⟩ = some s' ∧
      ∃ x, s'.dir.find store.path = some x ∧ x.bytes = pretty (sample "zc_b") ∧ Complete codec x (sample "zc_b") := by
  intro store codec requests
  have ht : store.temp ≠ store.path := temp_ne_path _ _ _
  have hr (i c) (hi : requests i = .save c) : Reads codec (codec.encode c) c := by
    match i with
    | 0 | 1 =>
      cases hi
      exact prettyCodec_reads (by simp) rfl (by simpa using fun h => absurd (sample_of_pretty h) (by decide))
    | 2 => cases hi
  obtain ⟨s₁, r₁, hc₁, hn, hx⟩ := save_stores codec store 0o022 (s := init codec store .empty requests) (i := 0) ht rfl
    (pretty_ne_nil _) rfl (fun i => by match i with | 0 | 1 | 2 => rfl)
  let s₂ : State (Fin 3) := ⟨s₁.dir, Function.update s₁.calls 2 (.metadata (pretty (sample "zc_a")))⟩
  have read : step codec store 0o022 s₁ ⟨2, 0⟩ = some s₂ :=
    step_of_serve (p := .read) (by rw [hc₁]; rfl) (by simp only [serve, hx]; rfl) rfl
  obtain ⟨s₃, r₂, hc₂, _, _⟩ := save_syncs codec store 0o022 (s := s₂) (i := 1) (by simp only [s₂, hc₁]; rfl)
    (pretty_ne_nil _) hn (fun i => by simp only [s₂, hc₁]; match i with | 0 | 1 | 2 => rfl)
  have r₃ := (r₁.snoc ⟨read, fun _ hb => by rw [hc₁] at hb; cases hb⟩).append r₂
  -- The file is still there when its mode is asked for.
  have loading : s₃.calls 2 = .metadata (pretty (sample "zc_a")) := by simp only [hc₂, s₂, hc₁]; rfl
  have t := (Sound.of_run ht (known_saved hr) (keeps_saved (by simp)) r₃).tracks 2
  rw [loading] at t
  obtain ⟨x, hx⟩ := Option.isSome_iff_exists.mp t.1
  have saving : s₃.calls 1 = .sync s₂.dir.fresh := by rw [hc₂, Function.update_self]
  have metadata : serve store 0o022 s₃.dir 0 (.metadata (pretty (sample "zc_a"))) = (s₃.dir, .mode x.mode) := by
    simp only [serve, hx]
  have r := (r₃.snoc ⟨step_of_serve loading metadata rfl, fun _ hb => by simp [loading] at hb⟩).snoc
    ⟨step_of_serve (i := 1) (p := .sync s₂.dir.fresh) (n := 0) (by simpa using saving) rfl rfl,
      fun _ hb => by simp [saving] at hb⟩
  have ⟨loaded, _, placed⟩ := volume_sound _ _ _ hr (by simp) r
  have ⟨s', h, _, hx⟩ := placed 1 (sample "zc_b") 0 rfl (by simp)
  exact ⟨_, _, s', _, r.unguard, by simp [hc₂, s₂, hc₁], by simp, by simp; rfl, loaded 2 _ (by simp), h, hx⟩

-- Two saves share the temp file.
theorem not_volume_sound :
    ¬∀ (codec : Codec) (dir : Directory (PathBuf Bytes)) (requests : Fin 3 → Request) (es : List (Event (Fin 3)))
        (s : State (Fin 3)),
      let store := ofServer [.root, .name [118]] "wss://attacca.example" "default"
      (∀ i c, requests i = .save c → Reads codec (codec.encode c) c) →
      (∀ x, dir.find store.path = some x → ∃ c, Complete codec x c) →
      Run (Fires (step codec store 0o022)) (init codec store dir requests) es s →
      ∀ i e, s.calls i ≠ .loaded (.error (.corrupt e)) := by
  intro h
  let store := ofServer [.root, .name [118]] "wss://attacca.example" "default"
  let codec := prettyCodec [sample "zc_a", sample "zc_b"]
  let requests : Fin 3 → Request
    | 0 => .save (sample "zc_a")
    | 1 => .save (sample "zc_b")
    | 2 => .load
  have hr (i c) (hi : requests i = .save c) : Reads codec (codec.encode c) c := by
    match i with
    | 0 | 1 =>
      cases hi
      exact prettyCodec_reads (by simp) rfl (by simpa using fun h => absurd (sample_of_pretty h) (by decide))
    | 2 => cases hi
  have ⟨s, r, hc, hf, hm⟩ := save_syncs codec store 0o022
    (s := init codec store .empty requests) (i := 0) rfl (pretty_ne_nil _) rfl
    (fun i => by match i with | 0 | 1 | 2 => rfl)
  have h₀ : s.calls 0 = .sync 0 := by rw [hc]; rfl
  have h₁ : s.calls 1 = .createDirAll (pretty (sample "zc_b")) := by rw [hc]; rfl
  have h₂ : s.calls 2 = .read := by rw [hc]; rfl
  have ⟨s', r', hl⟩ := crossing_saves codec store 0o022 h₀ h₁ h₂ (by decide) (by decide) (by decide) hf (congrArg _ hm)
  have ⟨e, he⟩ := prettyCodec_rejects [sample "zc_a", sample "zc_b"]
  exact h codec .empty requests _ s' hr (by simp) (r.unguard.append r') 2 e (by rw [hl]; simp [check, codec, he])

end Volume
