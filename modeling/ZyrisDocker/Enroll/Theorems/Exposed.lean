import ZyrisDocker.Enroll.Theorems.Solo

open Text Transition FileCredentialStore Volume

namespace DeviceGrant

-- A call that failed, and that only a person can help.
inductive Answer.NeedsOperator : Answer → Prop
  | bearer        : NeedsOperator (.bearer (.error (.needsOperator msg)))
  | forgetRefused : NeedsOperator (.forgetRefused (.error (.needsOperator msg)))

theorem Call.fail_needsOperator {call : Call} : (call.fail (storeTrouble x)).NeedsOperator := by
  cases call
  case bearer        => exact .bearer
  case forgetRefused => exact .forgetRefused

end DeviceGrant

namespace Solo

-- The credential file can be accessed by others.
structure Exposed (store : FileCredentialStore) (folder : Folder) (access : Access) (x : Inode) : Prop where
  plain : folder.foreign = none
  named : folder.named store = some (access, x)
  mode  : x.mode &&& 0o777 &&& 0o077 ≠ 0

-- No call ever enrolls or changes the disk, and every call fails. What fails does so because of the file and
-- its directory, but for removals.
def Refuses (process : Process) (codec : Codec) (store : FileCredentialStore) (grant : DeviceGrant) (folder : Folder) : Prop :=
  ∀ es s, Run (Guard (Fires <| step process codec store grant) fun s e _ => Reliable s e ∧ Present s e)
      (start (some folder)) es s →
    s.disk = some folder ∧ s.grant.at.enrolling = false ∧ ∀ a, s.returned = some a → a.NeedsOperator

variable {process : Process} {codec : Codec} {store : FileCredentialStore} {grant : DeviceGrant}
variable {folder : Folder} {access : Access} {x : Inode} {s s' : State} {e : Event}

-- A load fails, and if the file is discarded for that, it stays.
def Barred (process : Process) (codec : Codec) (store : FileCredentialStore) (folder : Folder) : Prop :=
  ∃ err, Disk.load process codec store (some folder) = .error err ∧
    ((CredentialStoreError.ofStoreError err).isDiscardable → folder.refusesRemoval process store = some ioDenied)

namespace Exposed

theorem readFile (h : Exposed store folder access x) : folder.readFile process store =
    if folder.maySearch process && process.mayRead access x.mode then .ok x.bytes else .error ioDenied := by
  cases hs : folder.maySearch process <;> simp [Folder.readFile, hs, h.plain, h.named]

theorem entry (h : Exposed store folder access x) : (folder.files.entries store.path).isSome := by
  have hn := h.named
  simp only [Folder.named, Option.map_eq_some_iff] at hn
  obtain ⟨_, hi, _⟩ := hn
  simp [hi]

-- A file that can be read is refused for its mode.
theorem load (h : Exposed store folder access x) (hs : folder.maySearch process) (hm : process.mayRead access x.mode) :
    Disk.load process codec store (some folder) = .error (.permissive store.path.display (x.mode &&& 0o777)) := by
  simp [Disk.load, Disk.readFile, Disk.fileMode, h.readFile, hs, hm, Folder.fileMode, h.plain, h.named, check, h.mode]

theorem load_denied (h : Exposed store folder access x) (hm : (folder.maySearch process && process.mayRead access x.mode) = false) :
    Disk.load process codec store (some folder) = .error (.io ioDenied) := by
  simp only [Disk.load, Disk.readFile, h.readFile, hm]
  rfl

-- It can be removed by those who can change the directory, and by nobody else.
theorem removal (h : Exposed store folder access x) :
    folder.refusesRemoval process store = if folder.mayChange process then none else some ioDenied := by
  have hf := h.entry
  cases hs : folder.maySearch process
  case false => simp [Folder.refusesRemoval, Folder.mayChange, hs]
  case true  =>
    have hn : (folder.files.entries store.path).isNone = false := by simpa using hf
    cases hc : folder.mayChange process <;> simp [Folder.refusesRemoval, hs, hn, hc, h.plain]

theorem barred (codec : Codec) (h : Exposed store folder access x)
    (hm : process.mayRead access x.mode ∨ ¬folder.mayChange process) : Barred process codec store folder := by
  cases hr : folder.maySearch process && process.mayRead access x.mode
  case true =>
    have ⟨hs, hm⟩ := (Bool.and_eq_true _ _).mp hr
    exact ⟨_, h.load hs hm, nofun⟩
  case false =>
    refine ⟨_, h.load_denied hr, fun _ => ?_⟩
    have hc : ¬folder.mayChange process := by
      intro hc
      have hm := hm.resolve_right (not_not.mpr hc)
      rw [Folder.maySearch_of_mayChange hc, hm] at hr
      cases hr
    rw [h.removal, if_neg hc]

end Exposed

-- The node never gets past its load, or the removal that follows.
structure Stays (process : Process) (store : FileCredentialStore) (folder : Folder) (s : State) : Prop where
  disk     : s.disk = some folder
  held     : s.grant.held = none
  call     : Quiet process store s ∨ ((∃ caller err, s.grant.at = .discard caller err) ∧ s.call = none ∧
    folder.refusesRemoval process store = some ioDenied)
  returned : ∀ a, s.returned = some a → a.NeedsOperator

namespace Stays

theorem start (folder : Folder) : Stays process store folder (start (some folder)) where
  disk     := rfl
  held     := rfl
  call     := .inl (.inl ⟨rfl, rfl⟩)
  returned := nofun

theorem not_enrolling (k : Stays process store folder s) : s.grant.at.enrolling = false := by
  obtain q | ⟨⟨_, _, h⟩, _⟩ := k.call
  · exact q.not_enrolling
  · rw [h]; rfl

theorem asks {e : DeviceGrant.Event} (k : Stays process store folder s) (hi : s.grant.at = .idle)
    (m : DeviceGrant.Moves grant s.grant e o) : Stays process store folder (enter codec store s.disk o) := by
  obtain rfl | rfl := m.idle_inv hi <;> cases m
  case inl.held hh     => simp [k.held] at hh
  case inl.loads hh    => exact ⟨k.disk, hh, .inl (.inr ⟨_, _, rfl, rfl, .inl rfl⟩), nofun⟩
  case inr.forgets     => exact ⟨k.disk, rfl, .inl (.inr ⟨_, _, rfl, rfl, .inl rfl⟩), nofun⟩
  all_goals cases ‹DeviceGrant.Event.enrolls _ = true›

theorem loaded (k : Stays process store folder s)
    (hd : (CredentialStoreError.ofStoreError err).isDiscardable → folder.refusesRemoval process store = some ioDenied)
    (m : DeviceGrant.Moves grant s.grant (.loaded (convert (.error err))) o) :
    Stays process store folder (enter codec store s.disk o) := by
  cases m
  case refused =>
    refine ⟨k.disk, k.held, .inl (.inl ⟨rfl, rfl⟩), fun _ h => ?_⟩
    cases h
    exact DeviceGrant.Call.fail_needsOperator
  case discards h => exact ⟨k.disk, k.held, .inr ⟨⟨_, _, rfl⟩, rfl, hd h⟩, nofun⟩
  case enrolls _ _ he | fails _ he => cases he

-- A removal that fails ends the call.
theorem stuck (k : Stays process store folder s) (ha : s.grant.at = .discard caller err)
    (m : DeviceGrant.Moves grant s.grant (.cleared (.error y)) o) : Stays process store folder (enter codec store s.disk o) := by
  cases m
  case stuck =>
    refine ⟨k.disk, k.held, .inl (.inl ⟨rfl, rfl⟩), fun _ h => ?_⟩
    cases h
    exact DeviceGrant.Call.fail_needsOperator
  case uncleared hc                => cases ha.symm.trans hc
  case enrolls he | fails he       => cases he

theorem discards (k : Stays process store folder s) (ha : s.grant.at = .discard caller err) (hc : s.call = none)
    (hr : folder.refusesRemoval process store = some ioDenied) (hp : Present s e) (m : Moves process codec store grant s e s') :
    Stays process store folder s' := by
  cases m
  case kill => exact k.disk ▸ start folder
  case advances h _ _ _ | loaded h _ _ _ | saved h _ _ _ => cases hc.symm.trans h
  case grant ho m =>
    cases m
    case held hi _ | loads hi _ | forgets hi => cases ha.symm.trans hi
    case granted hi                          => cases ha.symm.trans hi
    case enrolls hb _ _ | fails hb _         => rw [ha] at hb; cases hb
    all_goals cases ho
  case removes fault _ _ _ _ _ hd m =>
    have ⟨e, he, hk⟩ : ∃ e, s.disk.remove process store fault = (s.disk, .error e) ∧ e.kind ≠ .notFound := by
      cases fault
      case some e => exact ⟨e, rfl, hp.removal hc e rfl⟩
      case none   => exact ⟨ioDenied, by simp [k.disk, Disk.remove, Folder.remove, hr, Prod.map], nofun⟩
    cases he.symm.trans hd
    rw [show clear (.error e) = .error (.io e) from if_neg hk] at m
    exact k.stuck ha m

theorem step (b : Barred process codec store folder) (k : Stays process store folder s) (hr : Reliable s e) (hp : Present s e)
    (m : Moves process codec store grant s e s') : Stays process store folder s' := by
  obtain q | ⟨⟨_, _, ha⟩, hc, hd⟩ := k.call
  case inr => exact k.discards ha hc hd hp m
  have q := q.moves hr m
  clear m
  cases q
  case kill        => exact k.disk ▸ start folder
  case asks hi m   => exact k.asks hi m
  case reads hl hb => exact ⟨k.disk, k.held, .inl (.inr ⟨_, _, hl, rfl, .inr ⟨_, rfl, hb⟩⟩), nofun⟩
  case loaded m    =>
    have ⟨err, hl, hd⟩ := b
    rw [k.disk, hl] at m
    exact k.loaded hd m

end Stays

-- A file that cannot be read is discarded, whatever its mode, if it can be removed.
theorem unreadable_enrolls (process : Process) (codec : Codec) (grant : DeviceGrant) (h : Exposed store folder access x)
    (hm : process.mayRead access x.mode = false) (hc : folder.mayChange process) :
    ∃ s, Run (Guard (Fires <| step process codec store grant) fun s e _ => Reliable s e ∧ Present s e)
      (start (some folder)) [.grant .bearer, .io 0 none, .io 0 none] s ∧ s.grant.at.enrolling := by
  have hr : Disk.readFile process store (some folder) = .error ioDenied := by
    simp [Disk.readFile, h.readFile, hm]
  have hn : folder.refusesRemoval process store = _ := h.removal
  rw [if_pos hc] at hn
  let error : CredentialStoreError := .unusable (StoreError.io ioDenied).text
  let removed : Folder := { folder with files := folder.files.unlink store.path, foreign := none }
  refine ⟨⟨some removed, ⟨none, [], .enroll grant.url grant.request⟩, none, none⟩, ?_, rfl⟩
  refine .through ⟨some folder, ⟨none, [], .load .bearer⟩, some .read, none⟩ ⟨?_, trivial, trivial⟩ <|
    .through ⟨some folder, ⟨none, [], .discard .bearer error⟩, none, none⟩ ⟨?_, trivial, trivial⟩ <|
    .single ⟨?_, trivial, trivial⟩
  case refine_1 => rfl
  case refine_2 =>
    simp only [Fires, Solo.step, io, Disk.perform_read, hr, Answer.of, FileCredentialStore.resume, ioDenied]
    rfl
  case refine_3 =>
    simp only [Fires, Solo.step, remove, Disk.remove, Folder.remove, hn]
    rfl

theorem refuses_iff (process : Process) (codec : Codec) (grant : DeviceGrant) (h : Exposed store folder access x) :
    Refuses process codec store grant folder ↔ process.mayRead access x.mode ∨ ¬folder.mayChange process := by
  constructor
  case mp =>
    intro hr
    by_contra hm
    have ⟨hm, hc⟩ := not_or.mp hm
    have ⟨s, r, he⟩ := unreadable_enrolls process codec grant h (by simpa using hm) (not_not.mp hc)
    simp [(hr _ s r).2.1] at he
  case mpr =>
    intro hm es s r
    have k : Stays process store folder s :=
      r.preserves (.start folder) fun _ _ _ k g => k.step (h.barred codec hm) g.meets.1 g.meets.2 (step_moves g.fires)
    exact ⟨k.disk, k.not_enrolling, k.returned⟩

section Examples

variable (mode : Nat)

-- A directory with one file, which belongs to the node's user.
def restored (store : FileCredentialStore) : Folder where
  files    := Directory.empty.add store.path ⟨[], mode⟩
  access _ := .owner
  mode     := 0o700
  whose    := .owner
  foreign  := none

theorem restored_exposed (hm : mode &&& 0o777 &&& 0o077 ≠ 0) : Exposed store (restored mode store) .owner ⟨[], mode⟩ where
  plain := rfl
  named := by simp [Folder.named, restored, Directory.add]
  mode  := hm

end Examples

-- A file that anybody can read is refused.
theorem refuses_iff_readable :
    let store := ofServer [.root, .name [118]] "wss://attacca.example" "default"
    let grant : DeviceGrant := ⟨"https://attacca.example", ⟨"zyris-docker", "srv-a", "linux/x86_64", []⟩, fun _ => ""⟩
    Refuses ⟨false, 0o022⟩ (prettyCodec []) store grant (restored 0o644 store) := by
  intro store grant
  exact (refuses_iff ⟨false, 0o022⟩ (prettyCodec []) grant (restored_exposed 0o644 (by decide))).mpr (.inl (by decide))

-- One that everybody but its owner can read is not.
theorem not_refuses :
    ¬∀ (process : Process) (codec : Codec) (store : FileCredentialStore) (grant : DeviceGrant) (folder : Folder)
      (access : Access) (x : Inode), Exposed store folder access x → Refuses process codec store grant folder := by
  intro h
  let store := ofServer [.root, .name [118]] "wss://attacca.example" "default"
  let grant : DeviceGrant := ⟨"https://attacca.example", ⟨"zyris-docker", "srv-a", "linux/x86_64", []⟩, fun _ => ""⟩
  have hx : Exposed store (restored 0o044 store) .owner ⟨[], 0o044⟩ := restored_exposed 0o044 (by decide)
  have ⟨s, r, he⟩ := unreadable_enrolls ⟨false, 0o022⟩ (prettyCodec []) grant hx (by decide) (by decide)
  have ⟨_, hn, _⟩ := h _ _ _ _ _ _ _ hx _ s r
  simp [hn] at he

end Solo
