import ZyrisDocker.Enroll.Solo
import ZyrisDocker.Enroll.Theorems.Moves
import ZyrisDocker.Runtime.Theorems.Save

open Text Transition FileCredentialStore Volume

namespace Disk

variable {process : Process} {codec : Codec} {store : FileCredentialStore} {disk : Disk}

theorem perform_read (n : Nat) :
    disk.perform process store n none .read = (disk, .of .bytes (disk.readFile process store)) := by
  cases disk <;> rfl

theorem perform_metadata (n : Nat) (b : Bytes) :
    disk.perform process store n none (.metadata b) = (disk, .of .mode (disk.fileMode process store)) := by
  cases disk <;> rfl

-- The two steps of a load with nothing between them.
theorem read_cases (h : resume codec store .read (.of .bytes (disk.readFile process store)) = some p) :
    (∃ b, p = .metadata b ∧ disk.readFile process store = .ok b) ∨ p = .loaded (disk.load process codec store) := by
  cases hr : disk.readFile process store <;> rw [hr] at h
  case ok b    => cases h; exact .inl ⟨b, rfl, rfl⟩
  case error e =>
    simp only [Answer.of, resume] at h
    simp only [load, hr]
    split at h <;> cases h
    case isTrue hk  => exact .inr (by rw [if_pos hk])
    case isFalse hk => exact .inr (by rw [if_neg hk])

theorem metadata_loaded (codec : Codec) (h : disk.readFile process store = .ok b) :
    resume codec store (.metadata b) (.of .mode (disk.fileMode process store)) = some (.loaded (disk.load process codec store)) := by
  simp only [load, h]
  cases disk.fileMode process store <;> rfl

theorem readFile_of_load (h : disk.load process codec store = .ok (some c)) :
    ∃ b, disk.readFile process store = .ok b := by
  cases hr : disk.readFile process store
  case ok b    => exact ⟨b, rfl⟩
  case error e =>
    simp only [load, hr] at h
    split at h <;> cases h

end Disk

namespace Solo

-- A `load` or `save` that is not through.
def Pending (p : Suspension) : Prop :=
  (∀ r, p ≠ .loaded r) ∧ ∀ r, p ≠ .saved r

-- Everything that can happen to a single node.
inductive Moves (process : Process) (codec : Codec) (store : FileCredentialStore) (grant : DeviceGrant) (s : State) :
    Event → State → Prop
  | kill : Moves process codec store grant s .kill (start s.disk)
  | grant (own : isStored e = false) (move : DeviceGrant.Moves grant s.grant e o) :
    Moves process codec store grant s (.grant e) (enter codec store s.disk o)
  | advances (call : s.call = some p)
    (perform : s.disk.perform process store short fault p = (disk, a))
    (resume : FileCredentialStore.resume codec store p a = some p') (pending : Pending p') :
    Moves process codec store grant s (.io short fault) { s with disk, call := some p', returned := none }
  | loaded (call : s.call = some p)
    (perform : s.disk.perform process store short fault p = (disk, a))
    (resume : FileCredentialStore.resume codec store p a = some (.loaded r))
    (move : DeviceGrant.Moves grant s.grant (.loaded (convert r)) o) :
    Moves process codec store grant s (.io short fault) (enter codec store disk o)
  | saved (call : s.call = some p)
    (perform : s.disk.perform process store short fault p = (disk, a))
    (resume : FileCredentialStore.resume codec store p a = some (.saved r))
    (move : DeviceGrant.Moves grant s.grant (.saved (convert r)) o) :
    Moves process codec store grant s (.io short fault) (enter codec store disk o)
  | removes (call : s.call = none) (remove : s.disk.remove process store fault = (disk, r))
    (move : DeviceGrant.Moves grant s.grant (.cleared (convert (clear r))) o) :
    Moves process codec store grant s (.io short fault) (enter codec store disk o)

-- The same with the steps of the grant as they are.
inductive Turns (process : Process) (codec : Codec) (store : FileCredentialStore) (grant : DeviceGrant) (s : State) :
    Event → State → Prop
  | kill : Turns process codec store grant s .kill (start s.disk)
  | grant (own : isStored e = false) (turn : DeviceGrant.step grant s.grant e = some o) :
    Turns process codec store grant s (.grant e) (enter codec store s.disk o)
  | advances (call : s.call = some p)
    (perform : s.disk.perform process store short fault p = (disk, a))
    (resume : FileCredentialStore.resume codec store p a = some p') (pending : Pending p') :
    Turns process codec store grant s (.io short fault) { s with disk, call := some p', returned := none }
  | loaded (call : s.call = some p)
    (perform : s.disk.perform process store short fault p = (disk, a))
    (resume : FileCredentialStore.resume codec store p a = some (.loaded r))
    (turn : DeviceGrant.step grant s.grant (.loaded (convert r)) = some o) :
    Turns process codec store grant s (.io short fault) (enter codec store disk o)
  | saved (call : s.call = some p)
    (perform : s.disk.perform process store short fault p = (disk, a))
    (resume : FileCredentialStore.resume codec store p a = some (.saved r))
    (turn : DeviceGrant.step grant s.grant (.saved (convert r)) = some o) :
    Turns process codec store grant s (.io short fault) (enter codec store disk o)
  | removes (call : s.call = none) (remove : s.disk.remove process store fault = (disk, r))
    (turn : DeviceGrant.step grant s.grant (.cleared (convert (clear r))) = some o) :
    Turns process codec store grant s (.io short fault) (enter codec store disk o)

variable {process : Process} {codec : Codec} {store : FileCredentialStore} {grant : DeviceGrant} {disk : Disk}
variable {s s' : State} {e : Event} {es : List Event} {c : Credential}

theorem pending_cases (p : Suspension) : Pending p ∨ (∃ r, p = .loaded r) ∨ ∃ r, p = .saved r := by
  cases p
  case loaded r => exact .inr (.inl ⟨r, rfl⟩)
  case saved r  => exact .inr (.inr ⟨r, rfl⟩)
  all_goals exact .inl ⟨nofun, nofun⟩

-- The grant is resumed only by an operation that is through.
theorem resume_pending (h : Pending p) :
    resume codec store grant s disk p = some { s with disk, call := some p, returned := none } := by
  cases p
  case loaded => exact absurd rfl (h.1 _)
  case saved  => exact absurd rfl (h.2 _)
  all_goals rfl

theorem io_turns (hc : s.call = some p) (h : io process codec store grant s short fault p = some s') :
    Turns process codec store grant s (.io short fault) s' := by
  have ⟨p', hp, h⟩ := Option.bind_eq_some_iff.mp h
  obtain hp' | ⟨r, rfl⟩ | ⟨r, rfl⟩ := pending_cases p'
  case inl =>
    cases (resume_pending hp').symm.trans h
    exact .advances hc rfl hp hp'
  case inr.inl =>
    have ⟨o, hm, he⟩ := Option.map_eq_some_iff.mp h
    exact he ▸ .loaded hc rfl hp hm
  case inr.inr =>
    have ⟨o, hm, he⟩ := Option.map_eq_some_iff.mp h
    exact he ▸ .saved hc rfl hp hm

theorem step_turns (h : step process codec store grant s e = some s') : Turns process codec store grant s e s' := by
  cases e
  case kill    => cases h; exact .kill
  case grant e =>
    simp only [step] at h
    split at h
    case isTrue     => cases h
    case isFalse ho =>
      have ⟨o, hm, he⟩ := Option.map_eq_some_iff.mp h
      exact he ▸ .grant (by simpa using ho) hm
  case io short fault =>
    simp only [step] at h
    split at h
    case h_1 hc => exact io_turns hc h
    case h_2 hc _ | h_3 hc _ =>
      have ⟨o, hm, he⟩ := Option.map_eq_some_iff.mp h
      exact he ▸ .removes hc rfl hm
    case h_4 => cases h

theorem Turns.moves (t : Turns process codec store grant s e s') : Moves process codec store grant s e s' := by
  cases t
  case kill                 => exact .kill
  case grant ho hm          => exact .grant ho (DeviceGrant.step_moves hm)
  case advances hc ha hs hp => exact .advances hc ha hs hp
  case loaded hc ha hs hm   => exact .loaded hc ha hs (DeviceGrant.step_moves hm)
  case saved hc ha hs hm    => exact .saved hc ha hs (DeviceGrant.step_moves hm)
  case removes hc hd hm     => exact .removes hc hd (DeviceGrant.step_moves hm)

theorem step_moves (h : step process codec store grant s e = some s') : Moves process codec store grant s e s' :=
  (step_turns h).moves

-- How far the operation of the store has come that the grant awaits.
def Awaits (process : Process) (codec : Codec) (store : FileCredentialStore) (disk : Disk) :
    DeviceGrant.Suspension → Option Suspension → Prop
  | .load _, p => p = some .read ∨ ∃ b, p = some (.metadata b) ∧ disk.readFile process store = .ok b
  | .save c, p => ∃ q before wrote, p = some q ∧ Reads codec (codec.encode c) c ∧
    Disk.Save.Sound process codec store before c { disk, call := q, wrote }
  | _,       p => p = none

-- A credential that is held is the stored one.
structure Sound (process : Process) (codec : Codec) (store : FileCredentialStore) (s : State) : Prop where
  held     : ∀ {c}, s.grant.held = some c → s.grant.at = .idle ∧ s.disk.load process codec store = .ok (some c)
  call     : Awaits process codec store s.disk s.grant.at s.call
  returned : s.returned = some (.bearer (.ok secret)) → ∃ c, s.grant.held = some c ∧ c.secret = secret

-- What is granted can be read back.
def Readable (codec : Codec) : Event → Prop
  | .grant (.polled (.ok (.granted c))) => Reads codec (codec.encode c) c
  | _                                   => True

theorem awaits_request (h : ∀ c, p = .save c → Reads codec (codec.encode c) c) :
    Awaits process codec store disk p (request codec store p) := by
  cases p
  case load => exact .inl rfl
  case save c => exact ⟨_, disk, [], rfl, h c rfl, .init disk⟩
  all_goals rfl

theorem awaits_cases (h : Awaits process codec store disk q (some p)) :
    (∃ call, q = .load call ∧ (p = .read ∨ ∃ b, p = .metadata b ∧ disk.readFile process store = .ok b)) ∨
    (∃ c before wrote, q = .save c ∧ Reads codec (codec.encode c) c ∧
      Disk.Save.Sound process codec store before c { disk, call := p, wrote }) := by
  cases q
  case load call =>
    refine .inl ⟨call, rfl, h.imp Option.some.inj fun ⟨b, hb, hr⟩ => ⟨b, Option.some.inj hb, hr⟩⟩
  case save c =>
    have ⟨_, before, wrote, hp, hr, d⟩ := h
    cases hp
    exact .inr ⟨c, before, wrote, rfl, hr, d⟩
  all_goals cases h

-- What a load answers one of whose steps fails.
def Fails (fault : Option IoError) (p : Suspension) (r : Except StoreError (Option Credential)) : Prop :=
  ∃ e, fault = some e ∧ (r = .error (.io e) ∨ p = .read ∧ e.kind = .notFound ∧ r = .ok none)

-- A load leaves the disk as it is, and answers what is there if it does not fail.
theorem load_step (hp : p = .read ∨ ∃ b, p = .metadata b ∧ disk.readFile process store = .ok b)
    (ha : disk.perform process store n fault p = (disk', a))
    (hr : FileCredentialStore.resume codec store p a = some p') :
    disk' = disk ∧ ((∃ b, p' = .metadata b ∧ disk.readFile process store = .ok b) ∨
      ∃ r, p' = .loaded r ∧ (r = disk.load process codec store ∨ Fails fault p r)) := by
  cases fault
  case some e =>
    cases ha
    refine ⟨rfl, .inr ?_⟩
    obtain rfl | ⟨b, rfl, _⟩ := hp
    case inr => cases hr; exact ⟨_, rfl, .inr ⟨e, rfl, .inl rfl⟩⟩
    case inl =>
      simp only [FileCredentialStore.resume] at hr
      split at hr <;> cases hr
      case isTrue hk  => exact ⟨_, rfl, .inr ⟨e, rfl, .inr ⟨rfl, hk, rfl⟩⟩⟩
      case isFalse    => exact ⟨_, rfl, .inr ⟨e, rfl, .inl rfl⟩⟩
  case none =>
    obtain rfl | ⟨b, rfl, hb⟩ := hp
    case inl =>
      cases (Disk.perform_read n).symm.trans ha
      exact ⟨rfl, (Disk.read_cases hr).imp_right fun h => ⟨_, h, .inl rfl⟩⟩
    case inr =>
      cases (Disk.perform_metadata n b).symm.trans ha
      exact ⟨rfl, .inr ⟨_, Option.some.inj (hr.symm.trans (Disk.metadata_loaded codec hb)), .inl rfl⟩⟩

-- A load does not end as a save.
theorem load_not_saved (hp : p = .read ∨ ∃ b, p = .metadata b ∧ disk.readFile process store = .ok b)
    (ha : disk.perform process store n fault p = (disk', a)) : FileCredentialStore.resume codec store p a ≠ some (.saved r) := by
  intro hr
  obtain ⟨_, ⟨_, h, _⟩ | ⟨_, h, _⟩⟩ := load_step hp ha hr <;> cases h

theorem Fails.ne_some (h : Fails fault p r) (c : Credential) : r ≠ .ok (some c) := by
  obtain ⟨_, _, rfl | ⟨_, _, rfl⟩⟩ := h <;> rintro ⟨⟩

-- A step of a load fails only if it is not reliable.
theorem Fails.not_reliable (h : Fails fault p r) (hc : s.call = some p)
    (hp : p = .read ∨ ∃ b, p = .metadata b ∧ disk.readFile process store = .ok b) : ¬Reliable s (.io n fault) := by
  obtain ⟨_, rfl, _⟩ := h
  intro hr
  refine hr p hc ?_
  obtain rfl | ⟨_, rfl, _⟩ := hp <;> rfl

-- A removal is not told that a file is missing which is there.
theorem Present.removal (h : Present s (.io n fault)) (hc : s.call = none) : ∀ e ∈ fault, e.kind ≠ .notFound := by
  rintro _ ⟨⟩; exact h (.inl hc)

theorem save_step (ht : store.temp ≠ store.path) (hc : Reads codec (codec.encode c) c)
    (d : Disk.Save.Sound process codec store before c { disk, call := p, wrote })
    (ha : disk.perform process store n fault p = (disk', a))
    (hr : FileCredentialStore.resume codec store p a = some p') :
    ∃ wrote, Disk.Save.Sound process codec store before c { disk := disk', call := p', wrote } :=
  ⟨_, d.step (e := ⟨n, fault⟩) ht hc (Disk.Save.step_of_perform ha hr)⟩

-- A save does not end as a load.
theorem save_not_loaded (ht : store.temp ≠ store.path) (hc : Reads codec (codec.encode c) c)
    (d : Disk.Save.Sound process codec store before c { disk, call := p, wrote })
    (ha : disk.perform process store n fault p = (disk', a)) : FileCredentialStore.resume codec store p a ≠ some (.loaded r) := by
  intro hr
  have ⟨_, d⟩ := save_step ht hc d ha hr
  obtain ⟨_, h⟩ | t := d.tracks
  · cases h
  · exact t.elim

namespace Sound

theorem start (disk : Disk) : Sound process codec store (start disk) := ⟨nofun, rfl, nofun⟩

theorem held_none (d : Sound process codec store s) (h : s.grant.at ≠ .idle) : s.grant.held = none := by
  by_contra hc
  have ⟨_, hc⟩ := Option.ne_none_iff_exists'.mp hc
  exact h (d.held hc).1

-- What a step of the grant does, with the answer of the store or without.
theorem enters {e : DeviceGrant.Event} (d : Sound process codec store s) (m : DeviceGrant.Moves grant s.grant e o)
    (hr : Readable codec (.grant e)) (hk : s.grant.at = .idle → disk = s.disk)
    (hl : ∀ c, e = .loaded (.ok (some c)) ∨ s.grant.at = .save c ∧ e = .saved (.ok ()) →
      disk.load process codec store = .ok (some c)) :
    Sound process codec store (enter codec store disk o) where
  held {c} h := by
    refine ⟨m.idle_of_held (fun c hc => (d.held hc).1) h, ?_⟩
    obtain ⟨hh, _⟩ | ⟨he, _⟩ | hs := m.held_cases h
    · have ⟨hi, hd⟩ := d.held hh
      exact hk hi ▸ hd
    · exact hl c (.inl he)
    · exact hl c (.inr hs)
  call       := awaits_request fun c h => by cases m.granted_of_save h; exact hr
  returned h :=
    have ⟨c, hh, hs, _⟩ := m.held_of_returned h
    ⟨c, hh, hs⟩

theorem loaded (d : Sound process codec store s) (hl : r = s.disk.load process codec store ∨ Fails fault p r)
    (m : DeviceGrant.Moves grant s.grant (.loaded (convert r)) o) :
    Sound process codec store (enter codec store s.disk o) := by
  refine d.enters m trivial (fun _ => rfl) fun c h => ?_
  have hr : r = .ok (some c) := by
    cases r <;> simp_all [convert, Except.mapError]
  cases hl
  case inl hl => exact hl.symm.trans hr
  case inr hl => exact absurd hr (hl.ne_some c)

theorem saved (d : Sound process codec store s) (ha : s.grant.at = .save c)
    (hl : r = .ok () → disk.load process codec store = .ok (some c))
    (m : DeviceGrant.Moves grant s.grant (.saved (convert r)) o) :
    Sound process codec store (enter codec store disk o) := by
  refine d.enters m trivial (fun hi => by cases hi.symm.trans ha) fun c' h => ?_
  obtain h | ⟨hs, he⟩ := h
  · cases h
  · cases ha.symm.trans hs
    cases r
    case ok    => exact hl rfl
    case error => cases he

theorem step (ht : store.temp ≠ store.path) (d : Sound process codec store s) (hr : Readable codec e)
    (m : Moves process codec store grant s e s') : Sound process codec store s' := by
  cases m
  case kill       => exact start s.disk
  case grant ho m =>
    refine d.enters m hr (fun _ => rfl) fun _ h => ?_
    obtain rfl | ⟨_, rfl⟩ := h <;> cases ho
  case removes hc hd m =>
    refine d.enters m trivial (fun hi => ?_) fun _ h => ?_
    case refine_1 => obtain h | h := m.idle_inv hi <;> cases h
    case refine_2 => obtain h | ⟨_, h⟩ := h <;> cases h
  case advances hc ha hs hp =>
    have hi : s.grant.at ≠ .idle := fun hi => by simpa [hi, hc, Awaits] using d.call
    refine ⟨fun h => by simp [d.held_none hi] at h, ?_, nofun⟩
    obtain ⟨_, hl, hq⟩ | ⟨_, before, _, hv, hr, hd⟩ := awaits_cases (hc ▸ d.call)
    · obtain ⟨rfl, ⟨b, rfl, hb⟩ | ⟨_, rfl, _⟩⟩ := load_step hq ha hs
      · rw [hl]; exact .inr ⟨b, rfl, hb⟩
      · exact absurd rfl (hp.1 _)
    · have ⟨wrote, hd⟩ := save_step ht hr hd ha hs
      rw [hv]; exact ⟨_, before, wrote, rfl, hr, hd⟩
  case loaded hc ha hs m =>
    obtain ⟨_, hl, hq⟩ | ⟨_, _, _, _, hr, hd⟩ := awaits_cases (hc ▸ d.call)
    · obtain ⟨rfl, ⟨_, h, _⟩ | ⟨_, h, hl⟩⟩ := load_step hq ha hs
      · cases h
      · cases h; exact d.loaded hl m
    · exact absurd hs (save_not_loaded ht hr hd ha)
  case saved hc ha hs m =>
    obtain ⟨_, hl, hq⟩ | ⟨_, _, _, hv, hr, hd⟩ := awaits_cases (hc ▸ d.call)
    · exact absurd hs (load_not_saved hq ha)
    · have ⟨_, hd⟩ := save_step ht hr hd ha hs
      exact d.saved hv (fun h => hd.renamed (h ▸ rfl)) m

theorem of_run (ht : store.temp ≠ store.path)
    (r : Run (Guard (Fires <| Solo.step process codec store grant) fun _ e _ => Readable codec e) (Solo.start disk) es s) :
    Sound process codec store s :=
  r.preserves (start disk) fun _ _ _ d g => d.step ht g.meets (step_moves g.fires)

end Sound

-- Between two calls, or in a load.
def Quiet (process : Process) (store : FileCredentialStore) (s : State) : Prop :=
  (s.grant.at = .idle ∧ s.call = none) ∨ ∃ caller p, s.grant.at = .load caller ∧ s.call = some p ∧
    (p = .read ∨ ∃ b, p = .metadata b ∧ s.disk.readFile process store = .ok b)

-- Everything that can happen then. Only a call or the end of the load can make a difference.
inductive QuietMoves (process : Process) (codec : Codec) (store : FileCredentialStore) (grant : DeviceGrant) (s : State) :
    Event → State → Prop
  | kill : QuietMoves process codec store grant s .kill (start s.disk)
  | asks {e : DeviceGrant.Event} (idle : s.grant.at = .idle) (move : DeviceGrant.Moves grant s.grant e o) :
    QuietMoves process codec store grant s (.grant e) (enter codec store s.disk o)
  | reads (load : s.grant.at = .load caller) (read : s.disk.readFile process store = .ok b) :
    QuietMoves process codec store grant s (.io short fault) { s with call := some (.metadata b), returned := none }
  | loaded (load : s.grant.at = .load caller)
    (move : DeviceGrant.Moves grant s.grant (.loaded (convert (s.disk.load process codec store))) o) :
    QuietMoves process codec store grant s (.io short fault) (enter codec store s.disk o)

namespace Quiet

theorem not_enrolling (q : Quiet process store s) : s.grant.at.enrolling = false := by
  obtain ⟨h, _⟩ | ⟨_, _, h, _⟩ := q <;> rw [h] <;> rfl

theorem idle_of_asks {e : DeviceGrant.Event} (q : Quiet process store s) (ho : isStored e = false)
    (m : DeviceGrant.Moves grant s.grant e o) : s.grant.at = .idle := by
  have hn := q.not_enrolling
  cases m
  case held h _ | loads h _ | forgets h => exact h
  case granted ha                       => rw [ha] at hn; cases hn
  case enrolls hb _ _ | fails hb _      => cases hn.symm.trans hb
  all_goals cases ho

theorem loading (q : Quiet process store s) (hc : s.call = some p) :
    ∃ caller, s.grant.at = .load caller ∧ (p = .read ∨ ∃ b, p = .metadata b ∧ s.disk.readFile process store = .ok b) := by
  obtain ⟨_, h⟩ | ⟨caller, _, hl, h, hq⟩ := q
  · cases h.symm.trans hc
  · cases h.symm.trans hc
    exact ⟨caller, hl, hq⟩

theorem idle (q : Quiet process store s) (hc : s.call = none) : s.grant.at = .idle := by
  obtain ⟨h, _⟩ | ⟨_, _, _, h, _⟩ := q
  · exact h
  · cases hc.symm.trans h

theorem moves (q : Quiet process store s) (hr : Reliable s e) (m : Moves process codec store grant s e s') :
    QuietMoves process codec store grant s e s' := by
  cases m
  case kill       => exact .kill
  case grant ho m => exact .asks (q.idle_of_asks ho m) m
  case advances hc ha hs hp =>
    have ⟨_, hl, hq⟩ := q.loading hc
    obtain ⟨rfl, ⟨b, rfl, hb⟩ | ⟨_, rfl, _⟩⟩ := load_step hq ha hs
    · exact .reads hl hb
    · exact absurd rfl (hp.1 _)
  case loaded hc ha hs m =>
    have ⟨_, hl, hq⟩ := q.loading hc
    obtain ⟨rfl, ⟨_, h, _⟩ | ⟨_, h, rfl | hf⟩⟩ := load_step hq ha hs <;> cases h
    · exact .loaded hl m
    · exact absurd hr (hf.not_reliable hc hq)
  case saved hc ha hs _ =>
    have ⟨_, _, hq⟩ := q.loading hc
    exact absurd hs (load_not_saved hq ha)
  case removes hc _ m => obtain h | h := m.idle_inv (q.idle hc) <;> cases h

end Quiet

-- While the credential `c` is stored and nobody asks to forget it, it is all that is ever returned.
structure Keeps (process : Process) (codec : Codec) (store : FileCredentialStore) (c : Credential) (s : State) : Prop where
  load     : s.disk.load process codec store = .ok (some c)
  held     : s.grant.held = none ∨ s.grant.held = some c
  call     : (s.grant.at = .idle ∧ s.call = none) ∨ (s.grant.at = .load .bearer ∧
    (s.call = some .read ∨ ∃ b, s.call = some (.metadata b) ∧ s.disk.readFile process store = .ok b))
  returned : s.returned = none ∨ s.returned = some (.bearer (.ok c.secret))

namespace Keeps

theorem of_returned (d : Sound process codec store s) (h : s.returned = some (.bearer (.ok secret))) :
    ∃ c, Keeps process codec store c s ∧ c.secret = secret := by
  have ⟨c, hh, hs⟩ := d.returned h
  have ⟨hi, hl⟩ := d.held hh
  refine ⟨c, ⟨hl, .inr hh, .inl ⟨hi, ?_⟩, .inr (hs ▸ h)⟩, hs⟩
  simpa [hi, Awaits] using d.call

theorem quiet (k : Keeps process codec store c s) : Quiet process store s :=
  k.call.imp_right fun ⟨hl, hq⟩ => by
    obtain hc | ⟨b, hc, hb⟩ := hq
    · exact ⟨_, _, hl, hc, .inl rfl⟩
    · exact ⟨_, _, hl, hc, .inr ⟨b, rfl, hb⟩⟩

-- A load that is going on was started by `bearer`.
theorem loading (k : Keeps process codec store c s) (hl : s.grant.at = .load caller) : caller = .bearer := by
  obtain ⟨h, _⟩ | ⟨h, _⟩ := k.call <;> cases h.symm.trans hl
  rfl

theorem asks {e : DeviceGrant.Event} (k : Keeps process codec store c s) (he : e ≠ .forgetRefused)
    (hi : s.grant.at = .idle) (m : DeviceGrant.Moves grant s.grant e o) :
    Keeps process codec store c (enter codec store s.disk o) := by
  cases (m.idle_inv hi).resolve_right he
  cases m
  case held _ hh =>
    have hc := k.held.resolve_left (by simp [hh])
    cases hh.symm.trans hc
    exact ⟨k.load, .inr hc, .inl ⟨rfl, rfl⟩, .inr rfl⟩
  case loads _ hh => exact ⟨k.load, .inl hh, .inr ⟨rfl, .inl rfl⟩, .inl rfl⟩
  case enrolls _ _ he | fails _ he => cases he

theorem found (k : Keeps process codec store c s) (hl : s.grant.at = .load .bearer)
    (m : DeviceGrant.Moves grant s.grant (.loaded (convert (.ok (some c)))) o) :
    Keeps process codec store c (enter codec store s.disk o) := by
  cases m
  case found      => exact ⟨k.load, .inr rfl, .inl ⟨rfl, rfl⟩, .inr rfl⟩
  case adopts h _ => cases hl.symm.trans h
  case same h _   => cases hl.symm.trans h
  case enrolls _ _ he | fails _ he => cases he

theorem step (k : Keeps process codec store c s) (he : e ≠ .grant .forgetRefused) (hr : Reliable s e)
    (m : Moves process codec store grant s e s') : Keeps process codec store c s' := by
  have q := k.quiet.moves hr m
  clear m
  cases q
  case kill       => exact ⟨k.load, .inl rfl, .inl ⟨rfl, rfl⟩, .inl rfl⟩
  case asks hi m  => exact k.asks (fun h => he (h ▸ rfl)) hi m
  case reads hl hb =>
    cases k.loading hl
    exact ⟨k.load, k.held, .inr ⟨hl, .inr ⟨_, rfl, hb⟩⟩, .inl rfl⟩
  case loaded hl m =>
    cases k.loading hl
    rw [k.load] at m
    exact k.found hl m

-- Nothing is lost in a restart.
theorem restart (k : Keeps process codec store c s) :
    ∃ s', Run (Fires <| Solo.step process codec store grant) s [.kill, .grant .bearer, .io 0 none, .io 0 none] s' ∧
      s'.returned = some (.bearer (.ok c.secret)) := by
  have ⟨b, hb⟩ := Disk.readFile_of_load k.load
  let waiting : DeviceGrant.State := ⟨none, [], .load .bearer⟩
  refine ⟨⟨s.disk, ⟨c, [], .idle⟩, none, some (.bearer (.ok c.secret))⟩, ?_, rfl⟩
  refine .step (show Solo.step process codec store grant s .kill = some (start s.disk) from rfl) <|
    .through ⟨s.disk, waiting, some .read, none⟩ ?_ <| .through ⟨s.disk, waiting, some (.metadata b), none⟩ ?_ <| .single ?_
  case refine_1 => rfl
  case refine_2 =>
    simp [Fires, Solo.step, io, Disk.perform_read, hb, Answer.of, FileCredentialStore.resume, resume]
  case refine_3 =>
    have hm := Disk.metadata_loaded codec hb
    rw [k.load] at hm
    simp [Fires, Solo.step, io, Disk.perform_metadata, hm, resume, convert, Except.mapError, waiting, DeviceGrant.step,
      DeviceGrant.stored, DeviceGrant.hold, DeviceGrant.State.answer, enter, request]

theorem run (k : Keeps process codec store c s)
    (r : Run (Guard (Fires <| Solo.step process codec store grant) fun s e _ => Reliable s e) s es s')
    (h : .grant .forgetRefused ∉ es) : Keeps process codec store c s' := by
  have r := r.guard (P := (· ≠ .grant .forgetRefused)) fun e he hf => h (hf ▸ he)
  exact r.preserves k fun _ _ _ k g => k.step g.meets g.fires.meets (step_moves g.fires.fires)

end Keeps

theorem resume_returned (h : ¬Pending p) (a : Answer) : FileCredentialStore.resume codec store p a = none := by
  obtain hp | ⟨_, rfl⟩ | ⟨_, rfl⟩ := pending_cases p
  · exact absurd hp h
  all_goals rfl

theorem step_io (hc : s.call = some p) (ha : s.disk.perform process store n none p = (disk, a))
    (hr : FileCredentialStore.resume codec store p a = some p') :
    step process codec store grant s (.io n none) = resume codec store grant s disk p' := by
  simp [step, hc, io, ha, hr]

-- A save which the node awaits takes its steps as it would on its own.
theorem save_run {v v' : Disk.Save.State} (grant : DeviceGrant)
    (r : Run (Fires <| Disk.Save.step process codec store) v (List.replicate n ⟨0, none⟩) v')
    (hv : v'.call = .saved x) (hp : Pending v.call) (hg : DeviceGrant.step grant g (.saved (convert x)) = some o)
    (hs : s.disk = v.disk ∧ s.grant = g ∧ s.call = some v.call) :
    Run (Fires <| step process codec store grant) s (List.replicate n (.io 0 none)) (enter codec store v'.disk o) := by
  induction n generalizing v s
  case zero     => exact absurd (r.nil_eq ▸ hv) (hp.2 x)
  case succ n ih =>
    obtain ⟨hd, hq, hc⟩ := hs
    have ⟨v₁, h, r⟩ := r.cons_inv
    have ⟨disk, a, p, ha, hr, he⟩ := Disk.Save.step_inv h
    subst he
    have hs : step process codec store grant s (.io 0 none) = resume codec store grant s disk p :=
      step_io hc (hd ▸ ha) hr
    by_cases hp : Pending p
    case pos =>
      exact .step (hs.trans (resume_pending hp)) (ih r hp ⟨rfl, hq, rfl⟩)
    case neg =>
      -- The save is through, so this was the last step.
      cases n
      case succ =>
        obtain ⟨_, h, _⟩ := r.cons_inv
        simp [Fires, Disk.Save.step, resume_returned hp] at h
      case zero =>
        cases r.nil_eq
        cases hv
        refine .single ?_
        rw [Fires, hs, resume, hq, hg]
        rfl

theorem bearer_stored (process : Process) (grant : DeviceGrant) (credentialDir : PathBuf Bytes) (serverUrl profile : String) :
    let store := ofServer credentialDir serverUrl profile
    (hr : ∀ c, .grant (.polled (.ok (.granted c))) ∈ es → Reads codec (codec.encode c) c) →
    (r : Run (Fires <| step process codec store grant) (start disk) es s) →
    ∀ secret, s.returned = some (.bearer (.ok secret)) →
      (∃ c, s.disk.load process codec store = .ok (some c) ∧ c.secret = secret) ∧
      (∀ es' s', Run (Guard (Fires <| step process codec store grant) fun s e _ => Reliable s e) s es' s' →
        .grant .forgetRefused ∉ es' →
        (∀ r, s'.returned = some (.bearer r) → r = .ok secret) ∧ s'.grant.at.enrolling = false ∧
        ∃ s'', Run (Fires <| step process codec store grant) s' [.kill, .grant .bearer, .io 0 none, .io 0 none] s'' ∧
          s''.returned = some (.bearer (.ok secret))) := by
  intro store hr r secret h
  have r := r.guard (P := Readable codec) fun e he => by
    unfold Readable
    split
    case h_1 => exact hr _ he
    case h_2 => trivial
  have ⟨c, k, hs⟩ := Keeps.of_returned (.of_run (temp_ne_path credentialDir serverUrl profile) r) h
  refine ⟨⟨c, k.load, hs⟩, fun es' s' r' hf => ?_⟩
  have k' := k.run r' hf
  subst hs
  refine ⟨fun r hr => ?_, k'.quiet.not_enrolling, k'.restart⟩
  obtain hn | hn := k'.returned <;> cases hr.symm.trans hn
  rfl

-- The node enrolls, and the process is killed after the credential was returned.
theorem bearer_stored_enrolled :
    let store := ofServer [.root, .name [118]] "wss://attacca.example" "default"
    let codec := prettyCodec [sample "zc_a"]
    let process : Process := ⟨false, 0o022⟩
    let grant : DeviceGrant := ⟨"https://attacca.example", ⟨"zyris-docker", "srv-a", "linux/x86_64", ["tool_node:serve"]⟩, fun _ => ""⟩
    let es : List Event := [.grant .bearer, .io 0 none, .grant (.enrolled (.ok ⟨"WXYZ", "https://attacca.example/device", 600⟩)),
      .grant (.polled (.ok (.granted (sample "zc_a"))))] ++ List.replicate 7 (.io 0 none)
    ∃ s s', Run (Fires <| step process codec store grant) (start none) es s ∧
      Run (Fires <| step process codec store grant) s [.kill, .grant .bearer, .io 0 none, .io 0 none] s' ∧
      s'.returned = some (.bearer (.ok "zc_a")) := by
  intro store codec process grant es
  have hr : Reads codec (codec.encode (sample "zc_a")) (sample "zc_a") :=
    prettyCodec_reads (List.mem_singleton_self _) rfl (by simp)
  have ⟨v, r, hv⟩ := Disk.Save.save_succeeds process codec store rfl (pretty_ne_nil (sample "zc_a"))
  have ⟨s, r₁, hs⟩ : ∃ s, Run (Fires <| step process codec store grant) (start none) (es.take 4) s ∧
      s.disk = none ∧ s.grant = ⟨none, s.grant.log, .save (sample "zc_a")⟩ ∧ s.call = some (save codec store (sample "zc_a")) :=
    ⟨_, Run.iff_replay.mpr rfl, rfl, rfl, rfl⟩
  have r₂ := save_run grant r hv ⟨nofun, nofun⟩ rfl hs
  have h := bearer_stored process grant _ _ _ (fun c hc => ?_) (r₁.append r₂) "zc_a" rfl
  case refine_1 =>
    have hc : c = sample "zc_a" := by simpa [es] using hc
    exact hc ▸ hr
  have ⟨_, restarts⟩ := h
  have ⟨_, _, s', r', hs'⟩ := restarts [] _ .refl (by simp)
  exact ⟨_, s', r₁.append r₂, r', hs'⟩

section Examples

-- A directory with a credential file.
def keeps (store : FileCredentialStore) (bytes : Bytes) : Folder where
  files    := Directory.empty.add store.path ⟨bytes, 0o600⟩
  access _ := .owner
  mode     := 0o700
  whose    := .owner
  foreign  := none

theorem keeps_mayChange (process : Process) (store : FileCredentialStore) (b : Bytes) : (keeps store b).mayChange process := by
  simp [Folder.mayChange, Folder.maySearch, Process.maySearch, Process.mayWrite, keeps, Access.shift]

theorem load_keeps (h : Reads codec b c) : Disk.load process codec store (some (keeps store b)) = .ok (some c) :=
  have hn : (keeps store b).named store = some (.owner, ⟨b, 0o600⟩) := by simp [Folder.named, keeps, Directory.add]
  Disk.load_named (Folder.maySearch_of_mayChange (keeps_mayChange process store b)) rfl hn (by simp [Process.mayChmod]) h

theorem remove_keeps (process : Process) (store : FileCredentialStore) (b : Bytes) :
    Disk.remove process store (some (keeps store b)) none =
      (some { keeps store b with files := (keeps store b).files.unlink store.path, foreign := none }, .ok ()) := by
  have hc := keeps_mayChange process store b
  have hs := Folder.maySearch_of_mayChange hc
  simp [Disk.remove, Folder.remove, Folder.refusesRemoval, hs, hc]
  simp [keeps, Directory.add]

-- A load of a credential takes two steps.
theorem load_run (grant : DeviceGrant) (hl : s.disk.load process codec store = .ok (some c)) (hc : s.call = some .read)
    (hg : DeviceGrant.step grant s.grant (.loaded (.ok (some c))) = some o) :
    Run (Fires <| step process codec store grant) s (List.replicate 2 (.io 0 none)) (enter codec store s.disk o) := by
  have ⟨b, hb⟩ := Disk.readFile_of_load hl
  have hm := Disk.metadata_loaded codec hb
  rw [hl] at hm
  refine .through { s with call := some (.metadata b), returned := none } ?_ <| .single ?_
  case refine_1 => simp [Fires, step, io, hc, Disk.perform_read, hb, Answer.of, FileCredentialStore.resume, resume]
  case refine_2 =>
    simp [Fires, step, io, Disk.perform_metadata, hm, resume, convert, Except.mapError, hg]

def ioInput : IoError := ⟨.other, "Input/output error (os error 5)"⟩

-- A restarted node that fails to read the file is about to discard it.
theorem restart_unread (process : Process) (codec : Codec) (store : FileCredentialStore) (grant : DeviceGrant) (s : State) :
    Run (Fires <| step process codec store grant) s [.kill, .grant .bearer, .io 0 (some ioInput)]
      ⟨s.disk, ⟨none, [], .discard .bearer (.unusable (StoreError.io ioInput).text)⟩, none, none⟩ :=
  .through (start s.disk) rfl <| .through ⟨s.disk, ⟨none, [], .load .bearer⟩, some .read, none⟩ rfl <| .single rfl

-- The restarted node fails to read the file, removes it and enrolls.
theorem not_bearer_stored :
    ¬∀ (process : Process) (codec : Codec) (grant : DeviceGrant) (credentialDir : PathBuf Bytes) (serverUrl profile : String)
      (disk : Disk) (es es' : List Event) (s s' : State) (secret : String),
      let store := ofServer credentialDir serverUrl profile
      (∀ c, .grant (.polled (.ok (.granted c))) ∈ es → Reads codec (codec.encode c) c) →
      Run (Fires <| step process codec store grant) (start disk) es s → s.returned = some (.bearer (.ok secret)) →
      Run (Fires <| step process codec store grant) s (.kill :: .grant .bearer :: es') s' →
      (∀ e ∈ es', ∃ n fault, e = .io n fault) → s'.grant.at.enrolling = false := by
  intro h
  let store := ofServer [.root, .name [118]] "wss://attacca.example" "default"
  let codec := prettyCodec [sample "zc_a"]
  let process : Process := ⟨false, 0o022⟩
  let grant : DeviceGrant := ⟨"https://attacca.example", ⟨"zyris-docker", "srv-a", "linux/x86_64", []⟩, fun _ => ""⟩
  let disk : Disk := some (keeps store (pretty (sample "zc_a")))
  have hl : disk.load process codec store = .ok (some (sample "zc_a")) :=
    load_keeps <| prettyCodec_reads (List.mem_singleton_self _) rfl (by simp)
  have r₁ : Run (Fires <| step process codec store grant) (start disk) [.grant .bearer] _ := .single rfl
  have r₂ := load_run (s := ⟨disk, ⟨none, [], .load .bearer⟩, some .read, none⟩) grant hl rfl rfl
  have r₃ := restart_unread process codec store grant (enter codec store disk (⟨sample "zc_a", [], .idle⟩, some (.bearer (.ok "zc_a"))))
  let removed : Folder := { keeps store (pretty (sample "zc_a")) with
    files := (keeps store (pretty (sample "zc_a"))).files.unlink store.path, foreign := none }
  have hs : disk.remove process store none = (some removed, .ok ()) := remove_keeps process store (pretty (sample "zc_a"))
  have r₄ : Run (Fires <| step process codec store grant)
      ⟨disk, ⟨none, [], .discard .bearer (.unusable (StoreError.io ioInput).text)⟩, none, none⟩ [.io 0 none]
      ⟨some removed, ⟨none, [], .enroll grant.url grant.request⟩, none, none⟩ := by
    refine .single ?_
    simp only [Fires, step, remove, hs]
    rfl
  have hn := h process codec grant _ _ _ disk _ [.io 0 (some ioInput), .io 0 none] _ _ "zc_a" (by simp) (r₁.append r₂) rfl
    (r₃.append r₄) (by simp)
  cases hn

end Examples

end Solo
