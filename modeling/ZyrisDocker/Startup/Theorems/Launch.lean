import ZyrisDocker.Lib.Simulation
import ZyrisDocker.Runtime.Theorems.Bearer
import ZyrisDocker.Runtime.Theorems.DialLoop
import ZyrisDocker.Startup.Launch

open Text Credentials Transition

variable {machine : Machine} {env : OsEnv} {config : RunConfig} {src : Source}

theorem Credentials.validateCredential_eq_ok (h : validateCredential secret name = .ok s) : IsCredential s := by
  by_cases hc : IsCredential (trim secret)
  case pos =>
    rw [validateCredential_of_isCredential hc] at h
    cases h
    exact hc
  case neg =>
    obtain ⟨_, hv⟩ := validateCredential_of_not_isCredential name hc
    rw [hv] at h
    cases h

-- A variable with a credential is not set to any text but blanks, or it is set to a credential, or to something else.
theorem StaticToken.fromEnv_cases (env : OsEnv) (key : String) :
    (fromEnv (env key) = .ok none ∧ ∀ raw, env.var key = some raw → trim raw = "") ∨
    ∃ raw, env.var key = some raw ∧ trim raw ≠ "" ∧
      ((IsCredential (trim raw) ∧ ∃ source, fromEnv (env key) = .ok (some ⟨trim raw, source⟩)) ∨
        (¬IsCredential (trim raw) ∧ ∃ msg, fromEnv (env key) = .error (.fatal msg))) := by
  have hv : ((env key).bind fromUtf8).map String.ofList = env.var key := rfl
  simp only [fromEnv, hv]
  split
  case h_1 hn =>
    refine .inl ⟨rfl, fun raw hr => ?_⟩
    simpa using Option.filter_eq_none_iff.mp hn raw hr
  case h_2 raw hs =>
    obtain ⟨hr, hn⟩ := Option.filter_eq_some_iff.mp hs
    have hn : trim raw ≠ "" := by simpa using hn
    refine .inr ⟨raw, hr, hn, ?_⟩
    by_cases hc : IsCredential (trim raw)
    case pos => exact .inl ⟨hc, _, by rw [validateCredential_of_isCredential hc]; rfl⟩
    case neg =>
      obtain ⟨msg, hm⟩ := validateCredential_of_not_isCredential "ZYRIS_CREDENTIAL" hc
      exact .inr ⟨hc, msg, by rw [hm, if_neg hn]; rfl⟩

namespace Mounted

-- A token was checked at startup. A file is checked whenever it is read.
def Checked : Mounted → Prop
  | token t => IsCredential t.token
  | file _  => True

variable {mounted : Mounted} {runner : Runner} {s s' : Runner.State} {e : Event} {es : List Event}

-- What the loop survives: no refusal is among it, and each read gave a credential or was unavailable.
def Survives (mounted : Mounted) : Event → Prop
  | .loop (.dial (.error x)) => Refusal.of x = .backoff
  | .bearer found            => ∀ err, mounted.bearer found = .error err → ∃ msg, err = .unavailable msg
  | .forgetRefused           => False
  | .loop _                  => True

-- How a run comes to an end, and with which error.
inductive Final (mounted : Mounted) : List Event → RunError → Prop
  | unusable (failed : mounted.bearer found = .error err) (final : ∀ msg, err ≠ .unavailable msg) :
    Final mounted [.bearer found] (.credentials err)
  | fatal (fatal : Refusal.of x = .fatal) : Final mounted [.loop (.dial (.error x))] (.refused x)
  | refused (reenroll : Refusal.of x = .reenroll) :
    Final mounted [.loop (.dial (.error x)), .forgetRefused] (.refused x)

def Ends (mounted : Mounted) (es : List Event) (err : RunError) : Prop :=
  ∃ pre last, es = pre ++ last ∧ (∀ e ∈ pre, mounted.Survives e) ∧ mounted.Final last err

-- What each state of the loop tells of the events before it. The file was read right before a dial.
def Tells (mounted : Mounted) (es : List Event) (s : Runner.State) : Prop :=
  match s.at with
  | .returned err => mounted.Ends es err
  | .forget x     =>
    Refusal.of x = .reenroll ∧ ∃ pre, es = pre ++ [.loop (.dial (.error x))] ∧ ∀ e ∈ pre, mounted.Survives e
  | .dial b       => (∀ e ∈ es, mounted.Survives e) ∧ ∃ pre found, es = pre ++ [.bearer found] ∧ mounted.bearer found = .ok b
  | _             => ∀ e ∈ es, mounted.Survives e

structure Holds (mounted : Mounted) (es : List Event) (s : Runner.State) : Prop where
  tells   : mounted.Tells es s
  unspent : (∀ x, s.at ≠ .forget x) → (∀ err, s.at ≠ .returned err) → s.reenrolled = false

variable {found : Except String (Except ReadError Bytes)}

theorem bearer_isCredential (c : mounted.Checked) (h : mounted.bearer found = .ok b) : IsCredential b := by
  cases mounted
  case token => cases h; exact c
  case file file =>
    simp only [bearer, TokenFile.bearer] at h
    split at h <;> try cases h
    case h_2 => exact validateCredential_eq_ok h

theorem survives_snoc (h : ∀ e ∈ es, mounted.Survives e) (he : mounted.Survives e) :
    ∀ e' ∈ es ++ [e], mounted.Survives e' :=
  List.forall_mem_append.mpr ⟨h, List.forall_mem_singleton.mpr he⟩

namespace Holds

theorem init : mounted.Holds [] (Runner.init runner) where
  tells   := nofun
  unspent := fun _ _ => rfl

theorem going (x : mounted.Holds es s) (ha : s.at = p) (hf : ∀ x, p ≠ .forget x) (hr : ∀ err, p ≠ .returned err) :
    (∀ e ∈ es, mounted.Survives e) ∧ s.reenrolled = false := by
  subst ha
  refine ⟨?_, x.unspent hf hr⟩
  have ht := x.tells
  simp only [Tells] at ht
  split at ht
  case h_1 h => exact absurd h (hr _)
  case h_2 h => exact absurd h (hf _)
  case h_3   => exact ht.1
  case h_4   => exact ht

-- The loop goes on.
theorem goes (h : ∀ e ∈ es, mounted.Survives e) (hs : s.reenrolled = false)
    (ha : s.at = .sleep ∨ s.at = .panicked ∨ s.at = .bearer ∨ ∃ conn, s.at = .closed conn) : mounted.Holds es s := by
  refine ⟨?_, fun _ _ => hs⟩
  obtain ha | ha | ha | ⟨_, ha⟩ := ha <;> simpa only [Tells, ha] using h

theorem bearer (x : mounted.Holds es s) (m : Runner.Moves runner s (.bearer (mounted.bearer found)) s') :
    mounted.Holds (es ++ [.bearer found]) s' := by
  generalize hb : mounted.bearer found = r at m
  have survives (h : ∀ err, r = .error err → ∃ msg, err = .unavailable msg) : mounted.Survives (.bearer found) := by
    simpa only [Survives, hb] using h
  have ⟨hg, hu⟩ := x.going (p := .bearer) (by cases m <;> assumption) nofun nofun
  cases m
  case panicked    => exact goes (survives_snoc hg <| survives nofun) hu (.inr <| .inl rfl)
  case unavailable => exact goes (survives_snoc hg <| survives fun _ h => ⟨_, by cases h; rfl⟩) hu (.inl rfl)
  case connecting  => exact ⟨⟨survives_snoc hg <| survives nofun, es, found, rfl, hb⟩, fun _ _ => hu⟩
  case hopeless hf _ => exact ⟨⟨es, _, rfl, hg, .unusable hb hf⟩, fun _ h => absurd rfl (h _)⟩

theorem forgetRefused (x : mounted.Holds es s) (m : Runner.Moves runner s (.forget (.ok false)) s') :
    mounted.Holds (es ++ [.forgetRefused]) s' := by
  cases m
  case unforgotten ha =>
    have ht := x.tells
    simp only [Tells, ha] at ht
    obtain ⟨hx, pre, rfl, hg⟩ := ht
    exact ⟨⟨pre, _, List.append_assoc .., hg, .refused hx⟩, fun _ h => absurd rfl (h _)⟩

theorem loop {e : Runner.Event} (x : mounted.Holds es s) (m : Runner.Moves runner s e s')
    (ha : mounted.answer (.loop e) = some e) : mounted.Holds (es ++ [.loop e]) s' := by
  cases m <;> try cases ha
  case connected ha =>
    have ⟨hg, _⟩ := x.going ha nofun nofun
    exact goes (survives_snoc hg trivial) rfl (.inr <| .inr <| .inr ⟨_, rfl⟩)
  case unreachable hx ha =>
    have ⟨hg, hu⟩ := x.going ha nofun nofun
    exact goes (survives_snoc hg hx) hu (.inl rfl)
  case fatal hx ha =>
    have ⟨hg, _⟩ := x.going ha nofun nofun
    exact ⟨⟨es, _, rfl, hg, .fatal hx⟩, fun _ h => absurd rfl (h _)⟩
  case refused hx ha _ =>
    have ⟨hg, _⟩ := x.going ha nofun nofun
    exact ⟨⟨hx, es, rfl, hg⟩, fun h _ => absurd rfl (h _)⟩
  case spent _ ha hs =>
    have ⟨_, hu⟩ := x.going ha nofun nofun
    exact nomatch hu.symm.trans hs
  case dropped ha =>
    have ⟨hg, hu⟩ := x.going ha nofun nofun
    exact goes (survives_snoc hg trivial) hu (.inl rfl)
  case slept ha =>
    have ⟨hg, hu⟩ := x.going ha nofun nofun
    exact goes (survives_snoc hg trivial) hu (.inr <| .inr <| .inl rfl)

theorem step (x : mounted.Holds es s) (h : mounted.step runner s e = some s') : mounted.Holds (es ++ [e]) s' := by
  obtain ⟨e', ha, h⟩ := Option.bind_eq_some_iff.mp h
  have m := Runner.step_moves h
  cases e
  case bearer        => cases ha; exact x.bearer m
  case forgetRefused => cases ha; exact x.forgetRefused m
  case loop e        =>
    have he : e' = e := by cases e <;> cases ha <;> rfl
    exact x.loop (he ▸ m) (he ▸ ha)

end Holds

theorem run_holds (r : Run (Fires <| mounted.step runner) (Runner.init runner) es s) : mounted.Holds es s :=
  r.snoc_induction .init fun _ _ _ _ _ h x => x.step h

end Mounted

namespace Enroll

-- A variable that is set to anything.
def IsSet (env : OsEnv) (name : String) : Bool :=
  (env name).any (· ≠ [])

def grant (machine : Machine) (env : OsEnv) (config : RunConfig) : Source :=
  .grant (.ofServer (credentialDir (env "ZYRIS_CONFIG_DIR")) config.url config.profile) config.url {
    program
    systemHint := machine.name.getD ""
    platform   := RunConfig.platform machine
    scopes     := config.scopes
  }

-- Each source is taken only if the ones before it are not there.
inductive Sources (machine : Machine) (env : OsEnv) (config : RunConfig) : Except CredentialsError Source → Prop
  | token (given : env.var "ZYRIS_CREDENTIAL" = some raw) (text : trim raw ≠ "") (credential : IsCredential (trim raw)) :
    Sources machine env config (.ok (.mounted (.token ⟨trim raw, shown⟩)))
  | malformed (given : env.var "ZYRIS_CREDENTIAL" = some raw) (text : trim raw ≠ "") (other : ¬IsCredential (trim raw)) :
    Sources machine env config (.error (.fatal msg))
  | file (blank : ∀ raw, env.var "ZYRIS_CREDENTIAL" = some raw → trim raw = "")
    (given : env "ZYRIS_CREDENTIAL_FILE" = some path) (ne_nil : path ≠ []) :
    Sources machine env config (.ok (.mounted (.file ⟨.parse path⟩)))
  | leftover (blank : ∀ raw, env.var "ZYRIS_CREDENTIAL" = some raw → trim raw = "")
    (no_file : ∀ path, env "ZYRIS_CREDENTIAL_FILE" = some path → path = []) (left : leftover (IsSet env) = some name) :
    Sources machine env config (.error (.needsOperator msg))
  | grant (blank : ∀ raw, env.var "ZYRIS_CREDENTIAL" = some raw → trim raw = "")
    (no_file : ∀ path, env "ZYRIS_CREDENTIAL_FILE" = some path → path = []) (clean : Enroll.leftover (IsSet env) = none) :
    Sources machine env config (.ok (grant machine env config))

theorem source_sources (machine : Machine) (env : OsEnv) (config : RunConfig) :
    Sources machine env config (source machine env config) := by
  have hs : (fun name => (env name).any (· ≠ [])) = IsSet env := rfl
  simp only [source, hs, bind, Except.bind]
  obtain ⟨ht, hb⟩ | ⟨raw, hv, hn, ⟨hc, _, ht⟩ | ⟨hc, _, ht⟩⟩ := StaticToken.fromEnv_cases env "ZYRIS_CREDENTIAL"
  case inr.inl => rw [ht]; exact .token hv hn hc
  case inr.inr => rw [ht]; exact .malformed hv hn hc
  case inl =>
    rw [ht]
    dsimp only
    cases hf : TokenFile.fromEnv env
    case some =>
      obtain ⟨path, hp, rfl⟩ := Option.map_eq_some_iff.mp hf
      obtain ⟨hp, hn⟩ := Option.filter_eq_some_iff.mp hp
      exact .file hb hp (by simpa using hn)
    case none =>
      have hf : ∀ path, env "ZYRIS_CREDENTIAL_FILE" = some path → path = [] := by
        simpa [TokenFile.fromEnv, Option.filter_eq_none_iff] using hf
      cases hl : leftover (IsSet env)
      case some => exact .leftover hb hf hl
      case none => exact .grant hb hf hl

end Enroll

-- An operator gave a credential, as text or as a file.
def Given (env : OsEnv) : Prop :=
  (∃ raw, env.var "ZYRIS_CREDENTIAL" = some raw ∧ trim raw ≠ "") ∨ (∃ path, env "ZYRIS_CREDENTIAL_FILE" = some path ∧ path ≠ [])

-- The scopes do not decide which credential is presented.
theorem source_settled (machine : Machine) (env : OsEnv) (config : RunConfig) :
    Enroll.source machine (Main.settleScopes env) config = Enroll.source machine env config := by
  simp only [Main.settleScopes]
  split
  case isTrue  => rfl
  case isFalse => rfl

theorem launch_eq (machine : Machine) (env : OsEnv) :
    ∃ config, config = RunConfig.fromEnv machine (Main.settleScopes env) ∧
      ((∃ src, Enroll.Sources machine env config (.ok src) ∧ Main.launch machine env = .ok (config, src)) ∨
        ∃ e, Enroll.Sources machine env config (.error e) ∧ Main.launch machine env = .error (.credentials e)) := by
  refine ⟨_, rfl, ?_⟩
  have hs := Enroll.source_sources machine env (RunConfig.fromEnv machine (Main.settleScopes env))
  simp only [Main.launch, source_settled]
  generalize Enroll.source machine env _ = r at hs
  cases r
  case ok    => exact .inl ⟨_, hs, rfl⟩
  case error => exact .inr ⟨_, hs, rfl⟩

theorem launch_eq_ok (h : Main.launch machine env = .ok (config, src)) :
    config = RunConfig.fromEnv machine (Main.settleScopes env) ∧ Enroll.Sources machine env config (.ok src) := by
  obtain ⟨config', he, ⟨src', hs, hl⟩ | ⟨e, hs, hl⟩⟩ := launch_eq machine env <;> cases h.symm.trans hl
  exact ⟨he, hs⟩

-- What an operator gives is what a node uses.
theorem launch_given (h : Main.launch machine env = .ok (config, src)) (given : Given env) :
    ∃ mounted : Mounted, src = .mounted mounted ∧ mounted.Checked := by
  cases (launch_eq_ok h).2
  case token hc => exact ⟨_, rfl, hc⟩
  case file     => exact ⟨_, rfl, trivial⟩
  case grant hb hf _ =>
    obtain ⟨raw, hv, hr⟩ | ⟨path, hp, hn⟩ := given
    · exact absurd (hb raw hv) hr
    · exact absurd (hf path hp) hn

-- A node that was given a credential dials with what was checked right before, and every run of it ends with the
-- first refusal, or with the first read that neither gave a credential nor was unavailable.
theorem launched_mounted (launched : Main.launch machine env = .ok (config, src)) (given : Given env) :
    ∃ mounted, src = .mounted mounted ∧
      ∀ runner es s, Run (Fires <| mounted.step runner) (Runner.init runner) es s →
        (∀ b, s.at = .dial b →
          IsCredential b ∧ ∃ pre found, es = pre ++ [.bearer found] ∧ mounted.bearer found = .ok b) ∧
        (∀ err, s.at = .returned err → mounted.Ends es err) := by
  obtain ⟨mounted, rfl, checked⟩ := launch_given launched given
  refine ⟨mounted, rfl, fun runner es s r => ⟨fun b ha => ?_, fun err ha => ?_⟩⟩
  all_goals
    have ht := (Mounted.run_holds r).tells
    simp only [Mounted.Tells, ha] at ht
  case refine_1 =>
    obtain ⟨_, pre, found, he, hb⟩ := ht
    exact ⟨Mounted.bearer_isCredential checked hb, pre, found, he, hb⟩
  case refine_2 => exact ht

-- A credential that is none.
def Malformed (env : OsEnv) : Prop :=
  ∃ raw, env.var "ZYRIS_CREDENTIAL" = some raw ∧ trim raw ≠ "" ∧ ¬IsCredential (trim raw)

def Leftover (env : OsEnv) : Prop :=
  Enroll.IsSet env "ZYRIS_NODE_TOKEN" ∨ Enroll.IsSet env "ZYRIS_NODE_TOKEN_FILE"

theorem leftover_isSome_iff : (Enroll.leftover (Enroll.IsSet env)).isSome ↔ Leftover env := by
  simp [Enroll.leftover, Leftover]

theorem not_given (blank : ∀ raw, env.var "ZYRIS_CREDENTIAL" = some raw → trim raw = "")
    (no_file : ∀ path, env "ZYRIS_CREDENTIAL_FILE" = some path → path = []) : ¬Given env := by
  rintro (⟨raw, hv, hr⟩ | ⟨path, hp, hn⟩)
  · exact hr (blank raw hv)
  · exact hn (no_file path hp)

theorem not_malformed (blank : ∀ raw, env.var "ZYRIS_CREDENTIAL" = some raw → trim raw = "") : ¬Malformed env :=
  fun ⟨raw, hv, hn, _⟩ => hn (blank raw hv)

-- A node does not start if its credential is none, and neither if nothing was given but a variable that an earlier
-- image read. Only the second is for a person to mend.
theorem launch_exits_iff (machine : Machine) (env : OsEnv) (code : Nat) :
    (∃ err, Main.launch machine env = .error err ∧ err.exitCode = code) ↔
      (code = 1 ∧ Malformed env) ∨ (code = 2 ∧ ¬Given env ∧ Leftover env) := by
  obtain ⟨config, -, ⟨src, hs, he⟩ | ⟨e, hs, he⟩⟩ := launch_eq machine env <;> rw [he, ← leftover_isSome_iff] <;> clear he
  case inl =>
    cases hs
    case token hv hn hc =>
      have hm : ¬Malformed env := by
        rintro ⟨_, hv', _, hc'⟩
        cases hv.symm.trans hv'
        exact hc' hc
      have hg : Given env := .inl ⟨_, hv, hn⟩
      simp [hm, hg]
    case file hb hp hn =>
      have hg : Given env := .inr ⟨_, hp, hn⟩
      simp [not_malformed hb, hg]
    case grant hb _ hl => simp [not_malformed hb, hl]
  case inr =>
    cases hs
    case malformed hv hn hc =>
      have hm : Malformed env := ⟨_, hv, hn, hc⟩
      have hg : Given env := .inl ⟨_, hv, hn⟩
      simpa [hm, hg, RunError.exitCode] using eq_comm
    case leftover hb hf hl => simpa [not_malformed hb, not_given hb hf, hl, RunError.exitCode] using eq_comm

-- What a node asks to be granted: the list that is built in, or the one in the variable. If that is no text,
-- nothing is asked for.
def asked (env : OsEnv) : List String :=
  match env "ZYRIS_SCOPES" with
  | none       => Main.scopes
  | some bytes => (fromUtf8 bytes).elim [] fun text => csv (.ofList text)

theorem settled_scopes : (Main.settleScopes env "ZYRIS_SCOPES").bind fromUtf8 =
    match env "ZYRIS_SCOPES" with
    | none       => some (",".intercalate Main.scopes).toList
    | some bytes => fromUtf8 bytes := by
  simp only [Main.settleScopes]
  cases h : env "ZYRIS_SCOPES" <;> simp [h, OsEnv.setVar]

theorem scopes_entries : ∀ s ∈ Main.scopes, IsEntry s := by
  have h : ∀ s ∈ Main.scopes, trim s = s ∧ s ≠ "" ∧ ',' ∉ s.toList := by decide
  exact fun s hs => ⟨(h s hs).1, (h s hs).2.1, (h s hs).2.2⟩

theorem fromEnv_scopes : (RunConfig.fromEnv machine (Main.settleScopes env)).scopes = asked env := by
  simp only [RunConfig.fromEnv, OsEnv.var, settled_scopes, asked]
  split
  case h_1 =>
    show csv (.ofList (",".intercalate Main.scopes).toList) = Main.scopes
    rw [String.ofList_toList, csv_intercalate scopes_entries]
  case h_2 bytes _ => cases fromUtf8 bytes <;> rfl

theorem fromEnv_pinned : (RunConfig.fromEnv machine (Main.settleScopes env)).scopesPinned = false ↔
    ∃ bytes, env "ZYRIS_SCOPES" = some bytes ∧ ¬IsUtf8 bytes := by
  simp only [RunConfig.fromEnv, OsEnv.var, settled_scopes]
  split
  case h_1 h       => simp [h]
  case h_2 bytes h =>
    cases hb : fromUtf8 bytes
    case none => simp [h, fromUtf8_eq_none_iff.mp hb]
    case some => simp [h, ← fromUtf8_eq_none_iff, hb]

theorem asked_entries : ∀ s ∈ asked env, IsEntry s := by
  rw [asked]
  split
  case h_1         => exact scopes_entries
  case h_2 bytes _ =>
    cases fromUtf8 bytes
    case none => nofun
    case some => exact fun s hs => isEntry_of_mem_csv hs

-- An enrollment asks for what is to be asked for, and each of it is a single scope. The list counts as decided by
-- the variable even if it is the one that is built in.
theorem launched_scopes (launched : Main.launch machine env = .ok (config, src)) :
    config.scopes = asked env ∧ (∀ s ∈ config.scopes, IsEntry s) ∧
    (config.scopesPinned = false ↔ ∃ bytes, env "ZYRIS_SCOPES" = some bytes ∧ ¬IsUtf8 bytes) ∧
    ∀ store url request, src = .grant store url request → request.scopes = asked env := by
  obtain ⟨rfl, hs⟩ := launch_eq_ok launched
  have ha : (RunConfig.fromEnv machine (Main.settleScopes env)).scopes = asked env := fromEnv_scopes
  refine ⟨ha, ha ▸ asked_entries, fromEnv_pinned, ?_⟩
  rintro store url request rfl
  cases hs
  exact ha

section Examples

def debian : Machine where
  serverUrl := "wss://example.invalid/zyris/v1/ws"
  name      := "web-1"
  os        := "linux"

def unset : OsEnv :=
  fun _ => none

theorem launched_scopes_unset : ∃ config src, Main.launch debian unset = .ok (config, src) ∧ config.scopes = asked unset := by
  have launched : Main.launch debian unset = .ok (_, _) := rfl
  exact ⟨_, _, launched, (launched_scopes launched).1⟩

def mount : List Char :=
  "/run/secrets/zc".toList

def mounting : OsEnv :=
  fun key => if key = "ZYRIS_CREDENTIAL_FILE" then some (utf8 mount) else none

-- The credential in the file is refused.
def refusing : List Mounted.Event :=
  [.bearer (.ok <| .ok <| utf8 ['z', 'c', '_', '\n']), .loop (.dial (.error .unauthorized)), .forgetRefused]

theorem launched_mounted_refusing : ∃ config mounted runner s,
    Main.launch debian mounting = .ok (config, .mounted mounted) ∧
    Run (Fires <| mounted.step runner) (Runner.init runner) refusing s ∧
    s.at = .returned (.refused .unauthorized) ∧ mounted.Ends refusing (.refused .unauthorized) := by
  have launched : Main.launch debian mounting = .ok (_, .mounted (.file ⟨.parse (utf8 mount)⟩)) := rfl
  have given : Given mounting := .inr ⟨utf8 mount, rfl, by decide⟩
  obtain ⟨mounted, he, h⟩ := launched_mounted launched given
  cases he
  let runner : Runner := ⟨RunConfig.fromEnv debian mounting, true, true⟩
  have ⟨s, r, ha⟩ : ∃ s, Run (Fires <| Mounted.step (.file ⟨.parse (utf8 mount)⟩) runner) (Runner.init runner) refusing s ∧
      s.at = .returned (.refused .unauthorized) := ⟨_, Run.iff_replay.mpr rfl, rfl⟩
  exact ⟨_, _, runner, s, launched, r, ha, (h runner refusing s r).2 _ ha⟩

end Examples
