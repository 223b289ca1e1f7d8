import ZyrisDocker.Terminal.Basic

open Text

namespace GatedTerminal

variable {terminal : GatedTerminal} {req : ExecRequest} {s s' : State} {m : Move} {w : World}

-- What each move of the call does, and when it can.
inductive Advances (terminal : GatedTerminal) (req : ExecRequest) (s : State) : Move → State → Prop
  | write (writing : s.at = .writing rest) (pushed : s.stdin.push (rest.take n) = some stdin) :
    Advances terminal req s (.write n) { s with «at» := .writing (rest.drop n), stdin }
  | broken (writing : s.at = .writing rest) : Advances terminal req s .broken (collect terminal req s)
  | close (writing : s.at = .writing rest) : Advances terminal req s .close (collect terminal req s)
  | read (collecting : s.at = .collecting) (going : (s.output stream).ended = false)
    (le : n ≤ (s.output stream).pipe.buffer.length) :
    Advances terminal req s (.read stream n) (s.setOutput stream { s.output stream with
      pipe := (s.output stream).pipe.pull n
      kept := (s.output stream).kept.add terminal.maxOutputBytes ((s.output stream).pipe.buffer.take n) })
  | eof (collecting : s.at = .collecting) (buffer : (s.output stream).pipe.buffer = [])
    (writer : (s.output stream).pipe.writer = false) :
    Advances terminal req s (.eof stream) (s.setOutput stream { s.output stream with ended := true })
  | finish (collecting : s.at = .collecting) (ended : ∀ stream, (s.output stream).ended) :
    Advances terminal req s .finish { s with «at» := .returned (completed s code) }
  | expire (collecting : s.at = .collecting) (deadline : s.deadline = some d) (due : d ≤ s.now) :
    Advances terminal req s .expire { s with «at» := .grace (s.now + killGrace) }
  | kill (grace : s.at = .grace d) (due : d ≤ s.now) :
    Advances terminal req s .kill { s with «at» := .returned timedOut }

theorem advances (h : advance terminal req s m = some s') : Advances terminal req s m s' := by
  cases m <;> simp only [advance] at h
  case write =>
    split at h
    case h_2 => cases h
    case h_1 hw =>
      split at h
      case isFalse => cases h
      case isTrue  =>
        obtain ⟨_, hp, rfl⟩ := Option.map_eq_some_iff.mp h
        exact .write hw hp
  case broken =>
    split at h
    case h_2    => cases h
    case h_1 hw => split at h <;> cases h; exact .broken hw
  case close =>
    split at h
    case h_2    => cases h
    case h_1 hw => cases h; exact .close hw
  case read =>
    split at h
    case h_2    => cases h
    case h_1 hc =>
      split at h
      case isFalse   => cases h
      case isTrue hr => cases h; exact .read hc (by simpa using hr.1) (by omega)
  case eof =>
    split at h
    case h_2    => cases h
    case h_1 hc =>
      split at h
      case isFalse   => cases h
      case isTrue he => cases h; exact .eof hc he.2.1 (by simpa using he.2.2)
  case finish =>
    split at h
    case h_2      => cases h
    case h_1 hc _ =>
      split at h
      case isFalse   => cases h
      case isTrue he => cases h; exact .finish hc fun stream => by cases stream; exacts [he.1, he.2]
  case expire =>
    split at h
    case h_2       => cases h
    case h_1 hc hd => split at h <;> cases h; exact .expire hc hd ‹_›
  case kill =>
    split at h
    case h_2    => cases h
    case h_1 hg => split at h <;> cases h; exact .kill hg ‹_›

-- The same for what happens around it.
inductive Happens (s : State) : World → State → Prop
  | takes : Happens s (.takes n) { s with stdin := s.stdin.pull n }
  | drops : Happens s .drops { s with stdin := { s.stdin with reader := false } }
  | puts (writer : (s.output stream).pipe.writer) (pushed : (s.output stream).pipe.push bytes = some pipe) :
    Happens s (.puts stream bytes) (s.setOutput stream { s.output stream with pipe })
  | ends : Happens s (.ends stream) (s.setOutput stream { s.output stream with
      pipe := { (s.output stream).pipe with writer := false } })
  | fails (collecting : s.at = .collecting) :
    Happens s (.fails stream) (s.setOutput stream { s.output stream with ended := true })
  | exits : Happens s (.exits code) { s with status := some code }
  | tick (timely : s.timer.all (s.now + d ≤ ·)) : Happens s (.tick d) { s with now := s.now + d }

theorem happens (h : happen s w = some s') : Happens s w s' := by
  cases w <;> simp only [happen] at h
  case takes => cases h; exact .takes
  case drops => cases h; exact .drops
  case ends  => cases h; exact .ends
  case puts  =>
    split at h
    case isFalse   => cases h
    case isTrue hw =>
      obtain ⟨_, hp, rfl⟩ := Option.map_eq_some_iff.mp h
      exact .puts hw hp
  case fails =>
    split at h
    case h_1 hc => cases h; exact .fails hc
    case h_2    => cases h
  case exits => split at h <;> cases h; exact .exits
  case tick  => split at h <;> cases h; exact .tick ‹_›

end GatedTerminal
