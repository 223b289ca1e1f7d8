import ZyrisDocker.Lib.Text

inductive Component (ν : Type)
  | root
  | cur
  | up
  | name (n : ν)
  deriving DecidableEq

-- A path is what its components are. `root` and `cur` occur as the first component only in paths
-- that were parsed.
abbrev PathBuf (ν : Type) := List (Component ν)

namespace PathBuf

open Component

variable {ν : Type}

def hasRoot (p : PathBuf ν) : Bool :=
  p.head? matches some root

def fileName (p : PathBuf ν) : Option ν :=
  match p.getLast? with
  | some (name n) => some n
  | _             => none

-- The path without its last component, if there is one that can be removed.
def pop (p : PathBuf ν) : Option (PathBuf ν) :=
  match p.getLast? with
  | none | some root => none
  | some _           => some p.dropLast

def parent : PathBuf ν → Option (PathBuf ν) := pop

def startsWith [DecidableEq ν] (p base : PathBuf ν) : Bool :=
  base.isPrefixOf p

-- The absolute path of a location, which is given by the names that lead to it from the root.
def ofLocation (l : List ν) : PathBuf ν :=
  root :: l.map name

def names (p : PathBuf ν) : List ν :=
  p.filterMap fun c => match c with
    | name n => some n
    | _      => none

-- Where a path leads from a location if none of its names is a symlink. There is nothing above the root.
def normalize (l : List ν) : PathBuf ν → List ν
  | []          => l
  | root :: p   => normalize [] p
  | cur :: p    => normalize l p
  | up :: p     => normalize l.dropLast p
  | name n :: p => normalize (l ++ [n]) p

variable {l l' : List ν} {p : PathBuf ν}

theorem ofLocation_injective (h : ofLocation l = ofLocation l') : l = l' :=
  List.map_inj_right (fun _ _ => name.inj) |>.mp (List.cons.inj h).2

@[simp]
theorem names_ofLocation : (ofLocation l).names = l := by
  induction l
  case nil  => rfl
  case cons => simp_all [names, ofLocation]

theorem ofLocation_append : ofLocation (l ++ l') = ofLocation l ++ l'.map name := by
  simp [ofLocation]

theorem hasRoot_iff : p.hasRoot ↔ ∃ q, p = root :: q := by
  cases p
  case nil      => simp [hasRoot]
  case cons c p => cases c <;> simp [hasRoot]

@[simp]
theorem fileName_snoc : fileName (p ++ [name n]) = some n := by
  simp [fileName]

@[simp]
theorem pop_snoc_name : pop (p ++ [name n]) = some p := by
  simp [pop]

@[simp]
theorem pop_ofLocation_snoc : (ofLocation (l ++ [n])).pop = some (ofLocation l) := by
  rw [ofLocation_append]
  exact pop_snoc_name

-- Up to a location lead the locations of its directories.
theorem prefix_ofLocation (h : p <+: ofLocation l) (hp : p ≠ []) : ∃ l', p = ofLocation l' ∧ l' <+: l := by
  cases p
  case nil  => exact absurd rfl hp
  case cons =>
    have ⟨hr, ht⟩ := List.cons_prefix_cons.mp h
    have ⟨l', hl, he⟩ := List.prefix_map_iff.mp ht
    exact ⟨l', by rw [hr, he]; rfl, hl⟩

def slash : UInt8 := 47
def dot   : UInt8 := 46

-- The segments between slashes. Empty ones and all but a leading `.` are skipped.
def segment (first : Bool) : Text.Bytes → Option (Component Text.Bytes)
  | []                             => none
  | [46]                           => if first then some cur else none
  | [46, 46]                       => some up
  | n                              => some (name n)

def segments : List Text.Bytes → PathBuf Text.Bytes
  | []      => []
  | s :: ss => (segment true s).toList ++ ss.filterMap (segment false)

def parse (bytes : Text.Bytes) : PathBuf Text.Bytes :=
  match bytes with
  | 47 :: rest => root :: (rest.splitOn slash).filterMap (segment false)
  | _          => segments (bytes.splitOn slash)

theorem parse_ne_nil (h : b ≠ []) : parse b ≠ [] := by
  match b with
  | []        => exact absurd rfl h
  | x :: rest =>
    by_cases hx : x = 47
    case pos => simp [hx, parse]
    case neg =>
      have ⟨s, ss, he⟩ := List.exists_cons_of_ne_nil <| List.splitOnP_ne_nil (· == slash) rest
      have hs : (x :: rest).splitOn slash = (x :: s) :: ss := by
        rw [List.splitOn, List.splitOnP_cons_eq_if_modifyHead, he, if_neg (by simpa [slash] using hx)]
        rfl
      have ⟨c, hc⟩ : ∃ c, segment true (x :: s) = some c := by
        simp only [segment]
        split <;> simp_all
      rw [parse, hs]
      · simp [segments, hc]
      · simp [hx]

def ofString (s : String) : PathBuf Text.Bytes :=
  parse (Text.utf8 s.toList)

def segmentBytes : Component Text.Bytes → Text.Bytes
  | root   => []
  | cur    => [dot]
  | up     => [dot, dot]
  | name n => n

def bytes : PathBuf Text.Bytes → Text.Bytes
  | [root] => [slash]
  | p      => [slash].intercalate (p.map segmentBytes)

-- The text that shows a path.
def display (p : PathBuf Text.Bytes) : String :=
  .ofList (Text.fromUtf8Lossy p.bytes)

-- The bytes of a name up to its last dot, unless that is the first byte.
def fileStem (n : Text.Bytes) : Text.Bytes :=
  match (n.reverse.dropWhile (· ≠ dot)).tail.reverse with
  | []   => n
  | stem => stem

def withExtension (p : PathBuf Text.Bytes) (extension : String) : PathBuf Text.Bytes :=
  match p.fileName with
  | some n => p.dropLast ++ [name (fileStem n ++ dot :: Text.utf8 extension.toList)]
  | none   => p

theorem fileStem_append {s e : Text.Bytes} (hs : s ≠ []) (he : dot ∉ e) : fileStem (s ++ dot :: e) = s := by
  have hd : ((s ++ dot :: e).reverse.dropWhile (· ≠ dot)).tail.reverse = s := by
    have hr : ∀ x ∈ e.reverse, decide (x ≠ dot) = true := by
      intro x hx
      refine decide_eq_true ?_
      rintro rfl
      exact he <| List.mem_reverse.mp hx
    rw [List.reverse_append, List.reverse_cons, List.append_assoc, List.dropWhile_append_of_pos hr]
    simp
  rw [fileStem, hd]
  split
  case h_1 => exact absurd rfl hs
  case h_2 => rfl

theorem withExtension_snoc {p : PathBuf Text.Bytes} (hs : s ≠ []) (he : dot ∉ e) :
    withExtension (p ++ [name (s ++ dot :: e)]) extension = p ++ [name (s ++ dot :: Text.utf8 extension.toList)] := by
  rw [withExtension, fileName_snoc]
  simp only [fileStem_append hs he, List.dropLast_concat]

end PathBuf
