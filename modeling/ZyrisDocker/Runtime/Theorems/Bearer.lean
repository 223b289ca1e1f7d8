import ZyrisDocker.Runtime.Runner
import ZyrisDocker.Runtime.Store.Basic

open Text Credentials

namespace Credentials

def IsCredential (s : String) : Prop :=
  credentialPrefix.toList <+: s.toList

variable {secret source s : String} {e : CredentialsError}

theorem validateCredential_of_isCredential (h : IsCredential (trim secret)) :
    validateCredential secret source = .ok (trim secret) := by
  have hn : trim secret ≠ "" := fun he => absurd (he ▸ h) (by decide : ¬credentialPrefix.toList <+: "".toList)
  simp [validateCredential, hn, List.isPrefixOf_iff_prefix.mpr h]

-- What is rejected is blank, or looks like something else.
theorem validateCredential_of_not_isCredential (source : String) (h : ¬IsCredential (trim secret)) :
    ∃ m, validateCredential secret source = .error (if trim secret = "" then .needsOperator m else .fatal m) := by
  have hp : credentialPrefix.toList.isPrefixOf (trim secret).toList = false := by
    simpa [IsCredential, ← List.isPrefixOf_iff_prefix] using h
  by_cases hn : trim secret = ""
  case pos => exact ⟨_, by rw [validateCredential, if_pos hn, if_pos hn]⟩
  case neg => exact ⟨_, by simp only [validateCredential, hn, hp]; rfl⟩

end Credentials

namespace TokenFile

variable {file : TokenFile} {content : Bytes}

-- The answer that a file with the given content makes for.
def answer (file : TokenFile) (content : Bytes) : Except CredentialsError String :=
  file.bearer (.ok (.ok content))

theorem answer_utf8 (file : TokenFile) (text : List Char) : file.answer (utf8 text) =
    validateCredential (.ofList text) s!"the credential in {file.path.display}" := by
  simp [answer, bearer, Except.map, readToString, Except.bind]

theorem answer_of_not_isUtf8 (file : TokenFile) (h : ¬IsUtf8 content) : ∃ m, file.answer content = .error (.unavailable m) := by
  simp [answer, bearer, Except.map, readToString, Except.bind, fromUtf8_eq_none_iff.mpr h]

-- How the contents of a file are to be sorted. Any other error than that the source is unavailable ends
-- the dial loop.
structure Sorts (file : TokenFile) (content : Bytes) : Prop where
  accepted : ∀ s, file.answer content = .ok s ↔ ∃ text, utf8 text = content ∧ trim (.ofList text) = s ∧ IsCredential s
  blank    : ∀ text, utf8 text = content → trim (.ofList text) = "" → ∃ m, file.answer content = .error (.needsOperator m)
  other    : (∀ text, utf8 text = content → trim (.ofList text) ≠ "" ∧ ¬IsCredential (trim (.ofList text))) →
    ∃ m, file.answer content = .error (.fatal m)
  ends     : ∀ (runner : Runner) (s : Runner.State) e, s.at = .bearer → file.answer content = .error e →
    runner.step s (.bearer (file.answer content)) = some { s with «at» := .returned (.credentials e) }

theorem sorts_utf8 (text : List Char) : file.Sorts (utf8 text) := by
  by_cases hc : IsCredential (trim (.ofList text))
  case pos =>
    have ha : file.answer (utf8 text) = .ok (trim (.ofList text)) :=
      (answer_utf8 file text).trans <| validateCredential_of_isCredential hc
    refine ⟨fun s => ?accepted, ?blank, ?other, ?ends⟩
    case accepted =>
      rw [ha, Except.ok.injEq]
      constructor
      · rintro rfl
        exact ⟨text, rfl, rfl, hc⟩
      · rintro ⟨text', ht, rfl, _⟩
        rw [utf8_injective ht]
    case blank =>
      intro text' ht hb
      rw [utf8_injective ht] at hb
      exact absurd (hb ▸ hc) (by decide : ¬credentialPrefix.toList <+: "".toList)
    case other => exact fun h => absurd hc (h text rfl).2
    case ends  => exact fun _ _ _ _ he => nomatch ha.symm.trans he
  case neg =>
    have ⟨m, hv⟩ := validateCredential_of_not_isCredential s!"the credential in {file.path.display}" hc
    have ha := (answer_utf8 file text).trans hv
    refine ⟨fun s => ?accepted, ?blank, ?other, ?ends⟩
    case accepted =>
      rw [ha]
      simp only [reduceCtorEq, false_iff]
      rintro ⟨text', ht, rfl, hc'⟩
      exact hc (utf8_injective ht ▸ hc')
    case blank =>
      intro text' ht hb
      rw [utf8_injective ht] at hb
      exact ⟨m, by rw [ha, if_pos hb]⟩
    case other => exact fun h => ⟨m, by rw [ha, if_neg (h text rfl).1]⟩
    case ends =>
      intro runner s e hs he
      cases ha.symm.trans he
      rw [ha]
      split <;> simp only [Runner.step, hs]

-- A file that is not text is taken for one that cannot be reached.
theorem not_sorts_of_not_isUtf8 (hu : ¬IsUtf8 content) : ¬file.Sorts content := by
  intro h
  have ⟨_, hf⟩ := h.other fun _ ht => absurd (ht ▸ isUtf8_utf8) hu
  have ⟨_, ha⟩ := answer_of_not_isUtf8 file hu
  exact nomatch ha.symm.trans hf

theorem sorts_iff : file.Sorts content ↔ IsUtf8 content := by
  constructor
  case mp  => exact fun h => Decidable.by_contra fun hu => not_sorts_of_not_isUtf8 hu h
  case mpr =>
    intro h
    have ⟨text, ht⟩ := isUtf8_iff.mp h
    exact ht ▸ sorts_utf8 text

-- A credential that was saved as Latin-1.
theorem latin1_not_sorts : ¬Sorts ⟨.ofString "/run/secrets/zyris"⟩ [0x7a, 0x63, 0x5f, 0xe9] :=
  not_sorts_of_not_isUtf8 (by decide)

end TokenFile

namespace Credentials

-- The characters of the first bytes, if these are text.
theorem takeBytes_eq (h : n ≤ (utf8 cs).length) : takeBytes n cs = fromUtf8 ((utf8 cs).take n) := by
  induction cs generalizing n
  case nil =>
    cases Nat.le_zero.mp h
    rfl
  case cons c cs ih =>
    have hc := String.length_utf8EncodeChar c
    rw [utf8_cons, List.length_append, hc] at h
    cases n
    case zero => rfl
    case succ n =>
      simp only [takeBytes, utf8_cons]
      split
      case isTrue hn =>
        have ht : (String.utf8EncodeChar c).take (n + 1) = String.utf8EncodeChar c :=
          List.take_of_length_le (by omega)
        rw [ih (by omega), List.take_append, ht, hc, fromUtf8_append]
      case isFalse hn =>
        rw [List.take_append_of_le_length (by omega), eq_comm, fromUtf8_eq_none_iff]
        exact not_isUtf8_take (Nat.succ_pos n) (by omega)

theorem tokenPrefix_eq (token : String) :
    tokenPrefix token = (fromUtf8 ((utf8 token.toList).take tokenDisplayPrefix)).map .ofList := by
  rw [tokenPrefix, takeBytes_eq (Nat.min_le_left _ _)]
  congr 2
  exact List.take_eq_take_iff.mpr (by omega)

-- The credentials that a node can come to hold.
inductive Held : String → Prop
  | env (h : StaticToken.fromEnv value = .ok (some token)) : Held token.token
  | file (h : TokenFile.bearer file task = .ok token) : Held token
  | stored (credential : Credential) : Held credential.secret

-- A credential is shown by its first bytes, and by nothing else.
structure Shows (token : String) : Prop where
  shown    : ∃ p, tokenPrefix token = some p ∧ utf8 p.toList = (utf8 token.toList).take tokenDisplayPrefix
  logged   : ∀ runner s, (Runner.connecting runner s token).at ≠ .panicked
  describe : ∀ source, (StaticToken.describe { token, source }).isSome
  same     : ∀ token', (utf8 token'.toList).take tokenDisplayPrefix = (utf8 token.toList).take tokenDisplayPrefix →
    tokenPrefix token' = tokenPrefix token

theorem shows_iff (token : String) : Shows token ↔ IsUtf8 ((utf8 token.toList).take tokenDisplayPrefix) := by
  constructor
  case mp =>
    intro h
    have ⟨p, _, hp⟩ := h.shown
    exact hp ▸ isUtf8_utf8
  case mpr =>
    intro h
    have ⟨cs, hc⟩ := isUtf8_iff.mp h
    have hp : tokenPrefix token = some (.ofList cs) := by
      rw [tokenPrefix_eq, ← hc, fromUtf8_utf8, Option.map_some]
    exact {
      shown    := ⟨_, hp, by rw [String.toList_ofList, hc]⟩
      logged   := fun runner s => by simp [Runner.connecting, hp]
      describe := fun source => by simp [StaticToken.describe, hp]
      same     := fun token' he => by rw [tokenPrefix_eq, tokenPrefix_eq, he]
    }

-- Twelve bytes end in the middle of the last character.
theorem accented_not_shows : Held "zc_12345678é" ∧ ¬Shows "zc_12345678é" := by
  refine ⟨.env (rfl : StaticToken.fromEnv (some (utf8 "zc_12345678é".toList)) = .ok (some ⟨_, _⟩)), fun h => ?_⟩
  have ⟨_, hp, _⟩ := h.shown
  exact absurd hp (by rw [show tokenPrefix "zc_12345678é" = none by decide]; simp)

end Credentials
