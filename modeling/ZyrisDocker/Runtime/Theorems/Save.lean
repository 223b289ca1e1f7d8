import Mathlib.Data.Nat.Bitwise
import ZyrisDocker.Runtime.Store.Disk
import ZyrisDocker.Runtime.Theorems.Volume

open Text Transition FileCredentialStore Volume

variable {process : Process} {codec : Codec} {store : FileCredentialStore} {known : Credential → Prop} {n : Nat}
variable {p p' : Suspension} {c : Credential}

namespace Folder

variable {folder folder' : Folder}

theorem serve_cases (folder : Folder) (process : Process) (store : FileCredentialStore) (n : Nat) (p : Suspension) :
    (∃ e, folder.serve process store n p = (folder, .failed e)) ∨
    (folder.refuses process store p = none ∧ folder.serve process store n p = folder.apply process store n p) := by
  simp only [serve]
  cases h : folder.refuses process store p
  case none   => exact .inr ⟨rfl, rfl⟩
  case some e => exact .inl ⟨e, rfl⟩

-- What a step of a save does to the files is what it does on a volume without permissions.
theorem apply_files (process : Process) (n : Nat) (t : Tracks codec store known folder.files (.save c) p) :
    ((folder.apply process store n p).1.files, (folder.apply process store n p).2) =
      Volume.serve store process.umask folder.files n p := by
  cases p
  case rename =>
    simp only [apply, Volume.serve]
    cases folder.files.rename store.temp store.path <;> rfl
  case read | metadata => cases t
  all_goals rfl

theorem named_congr (he : folder'.files.entries store.path = folder.files.entries store.path)
    (h : ∀ i, folder.files.entries store.path = some i →
      folder'.access i = folder.access i ∧ folder'.files.inodes i = folder.files.inodes i) :
    folder'.named store = folder.named store := by
  simp only [named, he]
  cases hp : folder.files.entries store.path
  case none   => rfl
  case some i => simp [h i hp]

variable (ht : store.temp ≠ store.path)

include ht in
theorem named_create : (folder.apply process store n (.create b)).1.named store = folder.named store := by
  simp only [apply]
  cases h : folder.files.entries store.temp
  case none =>
    simp only [Directory.create_of_absent h, if_pos]
    refine named_congr (Function.update_of_ne ht.symm ..) fun i hi => ?_
    have hn := Nat.ne_of_lt (folder.files.bound hi)
    exact ⟨Function.update_of_ne hn .., Function.update_of_ne hn ..⟩
  case some j =>
    have hj := folder.files.bound h
    simp only [Directory.create_of_entries h, if_neg (Nat.ne_of_lt hj)]
    refine named_congr rfl fun i hi => ⟨rfl, Function.update_of_ne (fun he => ?_) ..⟩
    exact ht (folder.files.distinct (he ▸ h) hi)

theorem named_modify (h : folder.files.entries store.path ≠ some f) :
    ({ folder with files := folder.files.modify f g } : Folder).named store = folder.named store :=
  named_congr rfl fun i hi => ⟨rfl, Function.update_of_ne (show i ≠ f from fun he => h (he ▸ hi)) ..⟩

-- Up to the rename, the credential file stays what it is.
include ht in
theorem apply_named (process : Process) (n : Nat) (t : Tracks codec store known folder.files (.save c) p) (hp : p ≠ .rename) :
    (folder.apply process store n p).1.named store = folder.named store ∧
    (folder.apply process store n p).1.foreign = folder.foreign := by
  cases p
  case create b        => exact ⟨named_create ht, rfl⟩
  case restrict f b    => exact ⟨named_modify (t.2.path_ne ht), rfl⟩
  case write f b w     => exact ⟨named_modify (t.2.1.path_ne ht), rfl⟩
  case rename          => exact absurd rfl hp
  case read | metadata => cases t
  all_goals exact ⟨rfl, rfl⟩

-- The rename puts the file that was written in the place of what the path named before.
theorem apply_rename (process : Process) (n : Nat) (t : Tracks codec store known folder.files (.save c) .rename) :
    ∃ folder' f, folder.apply process store n .rename = (folder', .done) ∧ folder'.foreign = none ∧
      folder.files.entries store.temp = some f ∧ folder'.named store = some (folder.access f, ⟨codec.encode c, 0o600⟩) := by
  have ⟨f, hf, hm⟩ := t
  have ⟨files, hd, hi, hp, _⟩ := Directory.rename_eq_some (n := store.path) hf.entry
  refine ⟨{ folder with files, foreign := none }, f, by simp only [apply, hd], rfl, hf.entry, ?_⟩
  simp [named, hp, hi, ← hf.bytes, ← hm]

-- The mode of a file changes only to that of a private one.
theorem modify_mode {d : Directory (PathBuf Bytes)} (h : ∀ x, (g x).mode = x.mode) :
    ((d.modify i g).inodes f).mode = (d.inodes f).mode := by
  by_cases hi : f = i
  · simp [hi, h]
  · simp [Directory.modify, Function.update_of_ne hi]

theorem create_mode {d : Directory (PathBuf Bytes)} (hf : f < d.fresh) : f < (d.create store.temp bits).1.fresh ∧
    ((d.create store.temp bits).1.inodes f).mode = (d.inodes f).mode := by
  cases h : d.entries store.temp
  case none =>
    rw [Directory.create_of_absent h]
    refine ⟨Nat.lt_succ_of_lt hf, ?_⟩
    simp [Directory.add, Function.update_of_ne (Nat.ne_of_lt hf)]
  case some =>
    rw [Directory.create_of_entries h]
    exact ⟨hf, modify_mode (g := ({ · with bytes := [] })) fun _ => rfl⟩

theorem rename_mode {d d' : Directory (PathBuf Bytes)} (h : d.rename m k = some d') :
    d'.fresh = d.fresh ∧ d'.inodes = d.inodes := by
  unfold Directory.rename at h
  split at h <;> cases h
  exact ⟨rfl, rfl⟩

theorem apply_mode (process : Process) (store : FileCredentialStore) (n : Nat) (p : Suspension) (hf : f < folder.files.fresh) :
    f < (folder.apply process store n p).1.files.fresh ∧
    (((folder.apply process store n p).1.files.inodes f).mode = (folder.files.inodes f).mode ∨
      ((folder.apply process store n p).1.files.inodes f).mode = 0o600) := by
  cases p
  case create b => exact ⟨(create_mode hf).1, .inl (create_mode hf).2⟩
  case restrict g b =>
    refine ⟨hf, ?_⟩
    by_cases hg : f = g
    · exact .inr (by simp [apply, Volume.serve, Directory.chmod, hg])
    · exact .inl (by simp [apply, Volume.serve, Directory.chmod, Directory.modify, Function.update_of_ne hg])
  case write g b w =>
    refine ⟨hf, .inl ?_⟩
    simp only [apply, Volume.serve, Directory.write]
    exact modify_mode fun _ => rfl
  case rename =>
    simp only [apply]
    split
    case h_1 h => exact ⟨(rename_mode h).1 ▸ hf, .inl (by rw [(rename_mode h).2])⟩
    case h_2 => exact ⟨hf, .inl rfl⟩
  all_goals exact ⟨hf, .inl rfl⟩

-- Who may set the mode of a directory can search it then.
theorem maySearch_restricted (h : process.mayChmod folder.whose) : ({ folder with mode := 0o700 } : Folder).maySearch process := by
  simp only [Process.mayChmod, maySearch, Process.maySearch, Bool.or_eq_true, decide_eq_true_eq] at h ⊢
  cases h
  case inl h => exact .inl h
  case inr h => exact .inr (by simp [h, Access.shift])

theorem apply_maySearch (h : folder.maySearch process) (hn : folder.refuses process store p = none) :
    (folder.apply process store n p).1.maySearch process := by
  cases p
  case restrictDir =>
    have ho : process.mayChmod folder.whose := by simpa [refuses] using hn
    exact maySearch_restricted ho
  case rename =>
    simp only [apply]
    split
    case h_1 => exact h
    case h_2 => exact h
  all_goals exact h

theorem maySearch_of_mayChange (h : folder.mayChange process) : folder.maySearch process := by
  simp only [mayChange, Bool.and_eq_true] at h
  exact h.1

theorem mayChange_of_rename (h : folder.refuses process store .rename = none) : folder.mayChange process := by
  simp only [refuses] at h
  split at h
  case isTrue hc => exact hc
  case isFalse   => cases h

-- The bit that lets the owner search a new directory is set, unless the umask masks it.
theorem maySearch_empty : (empty process).maySearch process ↔ process.root ∨ process.umask &&& 0o100 = 0 := by
  let mode := 0o777 ^^^ (0o777 &&& process.umask)
  have hs : (empty process).maySearch process ↔ process.root ∨ mode >>> 6 &&& 1 ≠ 0 := by
    simp only [maySearch, Process.maySearch, empty, Access.shift, Bool.or_eq_true, mode]
    exact or_congr_right decide_eq_true_iff
  have hm : mode >>> 6 &&& 1 ≠ 0 ↔ mode.testBit 6 := by
    simp [Nat.testBit, Nat.and_comm]
  have hb : mode.testBit 6 = !process.umask.testBit 6 := by
    have h : (0o777 : Nat).testBit 6 = true := by decide
    simp only [mode, Nat.testBit_xor, Nat.testBit_and, h, Bool.true_and, Bool.true_xor]
  have hu : process.umask &&& 0o100 = (process.umask.testBit 6).toNat * 2 ^ 6 := Nat.and_two_pow process.umask 6
  rw [hs, hm, hb, hu]
  cases process.umask.testBit 6 <;> simp

end Folder

namespace Disk

-- An absent directory is as good as an empty one.
def folder (process : Process) (disk : Disk) : Folder :=
  disk.getD (.empty process)

theorem accessible_folder {disk : Disk} : disk.Accessible process ↔ (disk.folder process).maySearch process := by
  cases disk
  case none => exact Folder.maySearch_empty.symm
  case some => exact .rfl

theorem load_folder {disk : Disk} (h : disk.Accessible process) :
    disk.load process codec store = Disk.load process codec store (some (disk.folder process)) := by
  cases disk
  case some => rfl
  case none =>
    have hs : (Folder.empty process).maySearch process := Folder.maySearch_empty.mpr h
    have hr : (Folder.empty process).readFile process store = .error ioNotFound := by
      simp only [Folder.readFile, hs]
      rfl
    simp only [load, readFile, folder, Option.getD_none, hr]

theorem load_congr {folder folder' : Folder} (hn : folder'.named store = folder.named store)
    (hf : folder'.foreign = folder.foreign) (hs : folder'.maySearch process = folder.maySearch process) :
    Disk.load process codec store (some folder') = Disk.load process codec store (some folder) := by
  simp only [load, readFile, fileMode, Folder.readFile, Folder.fileMode, hn, hf, hs]

theorem load_named {folder : Folder} (hs : folder.maySearch process) (hf : folder.foreign = none)
    (hn : folder.named store = some (access, ⟨b, 0o600⟩)) (hm : process.mayChmod access) (hr : Reads codec b c) :
    Disk.load process codec store (some folder) = .ok (some c) := by
  have ho : process.mayRead access 0o600 := by
    simp only [Process.mayChmod, Process.mayRead, Bool.or_eq_true, decide_eq_true_eq] at hm ⊢
    cases hm
    case inl h => exact .inl h
    case inr h => exact .inr (by simp [h, Access.shift])
  simp only [load, readFile, fileMode, Folder.readFile, Folder.fileMode, hs, hf, hn, ho, if_true, Bool.not_true,
    Bool.false_eq_true, if_false]
  exact check_of_reads hr (by decide)

-- A step fails without an effect, or it is carried out.
theorem perform_cases (disk : Disk) (process : Process) (store : FileCredentialStore) (fault : Option IoError) (n : Nat)
    (p : Suspension) :
    (∃ e, disk.perform process store n fault p = (disk, .failed e)) ∨
    ((disk.folder process).refuses process store p = none ∧ disk.perform process store n fault p =
      (some ((disk.folder process).apply process store n p).1, ((disk.folder process).apply process store n p).2)) := by
  cases fault
  case some e => exact .inl ⟨e, rfl⟩
  case none =>
    cases disk
    case none =>
      cases p
      case createDirAll => exact .inr ⟨rfl, rfl⟩
      all_goals exact .inl ⟨_, rfl⟩
    case some folder =>
      simp only [perform, serve, Disk.folder, Option.getD_some]
      cases Folder.serve_cases folder process store n p
      case inl h => have ⟨e, he⟩ := h; exact .inl ⟨e, by simp [he, Prod.map]⟩
      case inr h => exact .inr ⟨h.1, by simp [h.2, Prod.map]⟩

end Disk

namespace FileCredentialStore

-- A save has given the temp file its mode.
def Suspension.restricted : Suspension → Bool
  | write .. | sync _ | rename => true
  | _                          => false

theorem resume_failed (h : resume codec store p (.failed e) = some p') (hp : p ≠ .read) (hm : ∀ b, p ≠ .metadata b) :
    p' = p ∨ ∃ err, p' = .saved (.error err) := by
  cases p
  case write =>
    simp only [resume] at h
    split at h <;> cases h
    case isTrue  => exact .inl rfl
    case isFalse => exact .inr ⟨_, rfl⟩
  case read           => exact absurd rfl hp
  case metadata       => exact absurd rfl (hm _)
  case saved | loaded => cases h
  all_goals cases h; exact .inr ⟨_, rfl⟩

-- A call that has returned takes no step.
theorem pending_of_resume (h : resume codec store p a = some p') (x : Except StoreError Unit) : p ≠ .saved x := by
  rintro rfl; cases h

-- A save succeeds with its rename, and only then.
theorem resume_saved (h : resume codec store p a = some (.saved (.ok ()))) : p = .rename := by
  simp only [resume, writeAll] at h
  split at h <;> try split at h
  all_goals cases h
  rfl

end FileCredentialStore

namespace FileCredentialStore.Volume

theorem Tracks.saving (t : Tracks codec store known dir (.save c) p) : p ≠ .read ∧ ∀ b, p ≠ .metadata b := by
  cases p
  case read | metadata => cases t
  all_goals exact ⟨nofun, nofun⟩

end FileCredentialStore.Volume

namespace Disk.Save

variable {before : Disk} {s s' : State} {e : Event} {es : List Event}

-- What is known about a save that began on the disk `before`.
structure Sound (process : Process) (codec : Codec) (store : FileCredentialStore) (before : Disk) (c : Credential)
    (s : State) : Prop where
  tracks     : (∃ err, s.call = .saved (.error err)) ∨
    Tracks codec store (fun _ => True) (s.disk.folder process).files (.save c) s.call
  owned      : s.call.restricted → ∀ f, (s.disk.folder process).files.entries store.temp = some f →
    process.mayChmod ((s.disk.folder process).access f)
  secret     : ∀ f ∈ s.wrote, f < (s.disk.folder process).files.fresh ∧ ((s.disk.folder process).files.inodes f).mode = 0o600
  accessible : before.Accessible process → s.disk.Accessible process
  renamed    : s.call = .saved (.ok ()) → s.disk.load process codec store = .ok (some c)
  pending    : before.Accessible process → s.call ≠ .saved (.ok ()) →
    s.disk.load process codec store = before.load process codec store

theorem step_inv (h : step process codec store s e = some s') :
    ∃ disk a p, s.disk.perform process store e.short e.fault s.call = (disk, a) ∧ resume codec store s.call a = some p ∧
      s' = { disk, call := p, wrote := puts s.call a ++ s.wrote } := by
  have ⟨p, hp, hs⟩ := Option.map_eq_some_iff.mp h
  exact ⟨_, _, p, rfl, hp, hs.symm⟩

namespace Sound

theorem init (disk : Disk) : Sound process codec store disk c (init codec store disk c) := by
  have hp : save codec store c = .createDirAll (codec.encode c) ∨ save codec store c = .create (codec.encode c) := by
    simp only [FileCredentialStore.save]
    split
    case h_1 => exact .inl rfl
    case h_2 => exact .inr rfl
  constructor <;> simp only [Save.init]
  case secret     => intro _ h; cases h
  case tracks     => cases hp <;> simp [*, Tracks]
  case owned      => cases hp <;> simp [*, Suspension.restricted]
  case accessible => exact id
  case renamed    => cases hp <;> simp [*]
  case pending    => exact fun _ _ => trivial

theorem puts_failed (p : Suspension) (err : IoError) : puts p (.failed err) = [] := by
  cases p <;> rfl

-- A step that fails leaves everything as it is.
theorem failed (d : Sound process codec store before c s)
    (t : Tracks codec store (fun _ => True) (s.disk.folder process).files (.save c) s.call)
    (h : resume codec store s.call (.failed err) = some p) :
    Sound process codec store before c { disk := s.disk, call := p, wrote := puts s.call (.failed err) ++ s.wrote } := by
  have hw := puts_failed s.call err
  have ⟨hr, hm⟩ := t.saving
  cases resume_failed h hr hm
  case inl he  => subst he; exact ⟨d.tracks, d.owned, hw ▸ d.secret, d.accessible, d.renamed, d.pending⟩
  case inr he  =>
    have ⟨_, he⟩ := he
    subst he
    exact ⟨.inl ⟨_, rfl⟩, nofun, hw ▸ d.secret, d.accessible, nofun, fun hb _ => d.pending hb (pending_of_resume h _)⟩

-- The process that gives the temp file its mode keeps the right to read it.
theorem owned_applied (d : Sound process codec store before c s)
    (t : Tracks codec store (fun _ => True) (s.disk.folder process).files (.save c) s.call)
    (hn : (s.disk.folder process).refuses process store s.call = none)
    (h : resume codec store s.call ((s.disk.folder process).apply process store n s.call).2 = some p) (hp : p.restricted) :
    ∀ f, ((s.disk.folder process).apply process store n s.call).1.files.entries store.temp = some f →
      process.mayChmod (((s.disk.folder process).apply process store n s.call).1.access f) := by
  have ho := d.owned
  generalize s.call = q at t hn h ho ⊢
  cases q
  case restrict g b =>
    intro f hf
    cases t.2.entry.symm.trans hf
    have ho : process.mayChmod ((s.disk.folder process).access g) := by simpa [Folder.refuses] using hn
    exact ho
  case write | sync => exact ho rfl
  case rename =>
    have ⟨_, _, ha, _⟩ := Folder.apply_rename process n t
    rw [ha] at h
    cases h; cases hp
  case read | metadata | loaded => cases t
  all_goals
    cases h
    try cases hp

theorem puts_secret {folder : Folder} (t : Tracks codec store known folder.files (.save c) p) (h : f ∈ puts p a) :
    f < folder.files.fresh ∧ (folder.files.inodes f).mode = 0o600 := by
  simp only [puts] at h
  split at h
  case h_1 =>
    cases List.mem_singleton.mp h
    exact ⟨folder.files.bound t.2.1.entry, t.2.2.1⟩
  case h_2 => cases h

theorem applied (ht : store.temp ≠ store.path) (hr : Reads codec (codec.encode c) c) (d : Sound process codec store before c s)
    (t : Tracks codec store (fun _ => True) (s.disk.folder process).files (.save c) s.call)
    (hn : (s.disk.folder process).refuses process store s.call = none)
    (h : resume codec store s.call ((s.disk.folder process).apply process store n s.call).2 = some p) :
    Sound process codec store before c {
      disk  := some ((s.disk.folder process).apply process store n s.call).1
      call  := p
      wrote := puts s.call ((s.disk.folder process).apply process store n s.call).2 ++ s.wrote
    } := by
  have hf := Folder.apply_files process n t
  constructor
  case tracks =>
    have hs : resume codec store s.call (Volume.serve store process.umask (s.disk.folder process).files n s.call).2 = some p := by
      rw [← hf]; exact h
    have hs := t.save_step hs
    rw [← hf] at hs
    exact .inr hs
  case owned      => exact d.owned_applied t hn h
  case accessible => exact fun hb => Folder.apply_maySearch (accessible_folder.mp (d.accessible hb)) hn
  case secret =>
    intro f hw
    have ⟨hb, hm⟩ : f < (s.disk.folder process).files.fresh ∧ ((s.disk.folder process).files.inodes f).mode = 0o600 := by
      cases List.mem_append.mp hw
      case inl hw => exact puts_secret t hw
      case inr hw => exact d.secret f hw
    have ⟨hb', hm'⟩ := Folder.apply_mode process store n s.call hb
    exact ⟨hb', hm'.elim (·.trans hm) id⟩
  case renamed =>
    rintro rfl
    have hp := resume_saved h
    rw [hp] at t hn ⊢
    have hs := Folder.apply_maySearch (n := n) (Folder.maySearch_of_mayChange (Folder.mayChange_of_rename hn)) hn
    have ⟨folder', f, ha, hnone, he, hnamed⟩ := Folder.apply_rename process n t
    rw [ha] at hs ⊢
    exact load_named hs hnone hnamed (d.owned (by rw [hp]; rfl) f he) hr
  case pending =>
    intro hb hp
    have hc : s.call ≠ .rename := by
      intro hc
      rw [hc] at t h
      have ⟨_, _, ha, _⟩ := Folder.apply_rename process n t
      rw [ha] at h
      cases h
      exact hp rfl
    have hs := pending_of_resume h (.ok ())
    have ha := d.accessible hb
    have hm := Folder.apply_maySearch (n := n) (accessible_folder.mp ha) hn
    have ⟨hn, hx⟩ := Folder.apply_named ht process n t hc
    rw [load_congr hn hx (hm.trans (accessible_folder.mp ha).symm), ← load_folder ha]
    exact d.pending hb hs

theorem step (ht : store.temp ≠ store.path) (hr : Reads codec (codec.encode c) c) (d : Sound process codec store before c s)
    (h : Save.step process codec store s e = some s') : Sound process codec store before c s' := by
  have ⟨_, _, p, hp, hs, he⟩ := step_inv h
  subst he
  have t := d.tracks.resolve_left fun ⟨_, hc⟩ => pending_of_resume hs _ hc
  cases perform_cases s.disk process store e.fault e.short s.call
  case inl hf =>
    have ⟨err, hf⟩ := hf
    cases hf.symm.trans hp
    exact d.failed t hs
  case inr ha =>
    have ⟨hn, ha⟩ := ha
    cases ha.symm.trans hp
    exact d.applied ht hr t hn hs

theorem of_run (ht : store.temp ≠ store.path) (hr : Reads codec (codec.encode c) c)
    (r : Run (Fires (Save.step process codec store)) (Save.init codec store before c) es s) :
    Sound process codec store before c s :=
  r.preserves (init before) fun _ _ _ d h => d.step ht hr h

end Sound

theorem step_of_perform {s : State} {disk : Disk} (hs : s.disk.perform process store e.short e.fault s.call = (disk, a))
    (hp : resume codec store s.call a = some p') :
    Fires (step process codec store) s e { disk, call := p', wrote := puts s.call a ++ s.wrote } := by
  simp [Fires, step, hs, hp]

-- A save that nothing disturbs succeeds.
theorem save_succeeds (process : Process) (codec : Codec) (store : FileCredentialStore) (hp : store.path.parent = some q)
    (hb : codec.encode c ≠ []) :
    ∃ s, Run (Fires (step process codec store)) (init codec store none c) (List.replicate 7 ⟨0, none⟩) s ∧
      s.call = .saved (.ok ()) := by
  have hl := List.length_pos_iff.mpr hb
  generalize hx : codec.encode c = b at hl
  have hi : init codec store none c = ⟨none, .createDirAll b, []⟩ := by
    simp [init, FileCredentialStore.save, hp, hx]
  let files : Directory (PathBuf Bytes) := Directory.empty.add store.temp ⟨[], newFileMode process.umask⟩
  let access : Nat → Access := Function.update (fun _ => .owner) 0 .owner
  let restricted := files.chmod 0 0o600
  let written := restricted.write 0 0 b
  have he : written.entries store.temp = some 0 := by
    simp [written, restricted, files, Directory.write, Directory.chmod, Directory.modify, Directory.add, Directory.empty]
  obtain ⟨renamed, hr, _⟩ := Directory.rename_eq_some (n := store.path) he
  have hw : resume codec store (.write 0 b 0) (.wrote b.length) = some (.sync 0) := by
    cases hb' : b.length
    case zero => omega
    case succ => simp [resume, writeAll, hb']
  have hm : resume codec store (.restrict 0 b) .done = some (.write 0 b 0) := by
    simp [resume, writeAll, hl]
  let made : Folder := { Folder.empty process with mode := 0o700 }
  have hs : made.maySearch process := Folder.maySearch_restricted (by simp [Process.mayChmod, Folder.empty])
  have hw' : process.mayWrite .owner 0o700 := by simp [Process.mayWrite, Access.shift]
  have hc : made.mayChange process := by
    rw [Folder.mayChange, hs, Bool.true_and]
    exact hw'
  have holds (f : Directory (PathBuf Bytes)) : ({ made with files := f, access } : Folder).mayChange process := hc
  rw [hi]
  refine ⟨⟨some { made with files := renamed, access }, .saved (.ok ()), [0]⟩, ?_, rfl⟩
  refine .through ⟨some (.empty process), .restrictDir b, []⟩ (step_of_perform rfl rfl) ?_
  refine .through ⟨some made, .create b, []⟩ (step_of_perform (a := .done) ?_ rfl) ?_
  case refine_1 =>
    have ho : process.mayChmod (Folder.empty process).whose := by simp [Process.mayChmod, Folder.empty]
    simp [perform, serve, Folder.serve, Folder.refuses, ho, Folder.apply, made]
  refine .through ⟨some { made with files, access }, .restrict 0 b, []⟩ (step_of_perform (a := .opened 0) ?_ rfl) ?_
  case refine_1 =>
    have he : made.files.entries store.temp = none := rfl
    simp only [perform, serve, Folder.serve, Folder.refuses, he, hc, if_true]
    rfl
  refine .through ⟨some { made with files := restricted, access }, .write 0 b 0, []⟩ (step_of_perform (a := .done) ?_ hm) ?_
  case refine_1 =>
    have ho : process.mayChmod (access 0) := by simp [Process.mayChmod, access]
    simp [perform, serve, Folder.serve, Folder.refuses, ho, Folder.apply, Volume.serve, restricted]
  refine .through ⟨some { made with files := written, access }, .sync 0, [0]⟩ ?_ ?_
  case refine_1 =>
    have hp : puts (.write 0 b 0) (.wrote b.length) = [0] := by
      cases hb' : b.length
      case zero => omega
      case succ => rfl
    have hs : max 1 b.length = b.length := Nat.max_eq_right hl
    have ha : perform process store (some { made with files := restricted, access }) 0 none (.write 0 b 0) =
        (some { made with files := written, access }, .wrote b.length) := by
      simp [perform, serve, Folder.serve, Folder.refuses, Folder.apply, Volume.serve, hs, written]
    have h : Fires (step process codec store) ⟨some { made with files := restricted, access }, .write 0 b 0, []⟩ ⟨0, none⟩ _ :=
      step_of_perform ha hw
    simpa [hp] using h
  refine .through ⟨some { made with files := written, access }, .rename, [0]⟩ (step_of_perform rfl rfl) ?_
  refine .single (step_of_perform (a := .done) ?_ rfl)
  simp only [perform, serve, Folder.serve, Folder.refuses, holds, if_true]
  simp [Folder.apply, hr, made, Folder.empty]

theorem save_atomic (process : Process) (credentialDir : PathBuf Bytes) (serverUrl profile : String) (before : Disk) :
    let store := ofServer credentialDir serverUrl profile
    (hr : Reads codec (codec.encode c) c) →
    (r : Run (Fires (step process codec store)) (init codec store before c) es s) →
    (before.Accessible process → s.call ≠ .saved (.ok ()) →
      s.disk.load process codec store = before.load process codec store) ∧
    (s.call = .saved (.ok ()) → s.disk.load process codec store = .ok (some c)) ∧
    (∀ f ∈ s.wrote, ∃ folder, s.disk = some folder ∧ (folder.files.inodes f).mode = 0o600) := by
  intro store hr r
  have d := Sound.of_run (temp_ne_path credentialDir serverUrl profile) hr r
  refine ⟨d.pending, d.renamed, fun f hf => ?_⟩
  have ⟨hb, hm⟩ := d.secret f hf
  cases hd : s.disk
  case none        => simp [hd, Disk.folder, Folder.empty, Directory.empty] at hb
  case some folder => exact ⟨folder, rfl, by simpa [hd, Disk.folder] using hm⟩

-- The directory does not exist before.
theorem save_atomic_saved :
    let store := ofServer [.root, .name [118]] "wss://attacca.example" "default"
    let codec := prettyCodec [sample "zc_a"]
    let process : Process := ⟨false, 0o022⟩
    ∃ s, Run (Fires (step process codec store)) (init codec store none (sample "zc_a")) (List.replicate 7 ⟨0, none⟩) s ∧
      s.disk.load process codec store = .ok (some (sample "zc_a")) ∧
      ∃ s', Run (Fires (step process codec store)) (init codec store none (sample "zc_a")) [⟨0, none⟩] s' ∧
        s'.disk ≠ none ∧ s'.disk.load process codec store = .ok none := by
  intro store codec process
  have hr : Reads codec (codec.encode (sample "zc_a")) (sample "zc_a") :=
    prettyCodec_reads (List.mem_singleton_self _) rfl (by simp)
  have ⟨s, r, hs⟩ := save_succeeds process codec store rfl (pretty_ne_nil (sample "zc_a"))
  have ⟨_, saved, _⟩ := save_atomic process _ _ _ none hr r
  have ⟨s', r', hd, hc⟩ : ∃ s', Run (Fires (step process codec store)) (init codec store none (sample "zc_a")) [⟨0, none⟩] s' ∧
      s'.disk ≠ none ∧ s'.call ≠ .saved (.ok ()) :=
    ⟨_, Run.iff_replay.mpr rfl, by rintro ⟨⟩, by rintro ⟨⟩⟩
  have ⟨pending, _, _⟩ := save_atomic process _ _ _ none hr r'
  exact ⟨s, r, saved hs, s', r', hd, pending (.inr (by decide)) hc⟩

-- A umask that masks the owner's rights leaves a directory that cannot be searched, until it gets its mode.
theorem not_save_atomic :
    ¬∀ (process : Process) (codec : Codec) (credentialDir : PathBuf Bytes) (serverUrl profile : String) (c : Credential)
      (es : List Event) (s : State),
      let store := ofServer credentialDir serverUrl profile
      Reads codec (codec.encode c) c → Run (Fires (step process codec store)) (init codec store none c) es s →
      s.call ≠ .saved (.ok ()) → s.disk.load process codec store = Disk.load process codec store none := by
  intro h
  have hr : Reads (prettyCodec [sample "zc_a"]) ((prettyCodec [sample "zc_a"]).encode (sample "zc_a")) (sample "zc_a") :=
    prettyCodec_reads (List.mem_singleton_self _) rfl (by simp)
  have h := h ⟨false, 0o777⟩ (prettyCodec [sample "zc_a"]) [.root, .name [118]] "wss://attacca.example" "default" (sample "zc_a")
    [⟨0, none⟩] _ hr (Run.iff_replay.mpr rfl) (by rintro ⟨⟩)
  cases h

end Disk.Save
