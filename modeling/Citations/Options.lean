import Citations.Text.Blank
import Citations.Text.Numeral

/-!
# Options of a rendering

* `Options`                  what a rendering may be asked for; a cap on the passes is positive;
* `Options.ofSettings`       checks the cap;
* `Options.withOverrides`    the options with some of the settings changed;
* `Options.ofEnvironment`    the options that the environment asks for.
-/

namespace Citations

/-- Without a cap there is nothing to check. -/
theorem Options.noCap_pos : ∀ n, (none : Option Nat) = some n → 0 < n := nofun

structure Options where
  /-- show unresolved tokens and note every step -/
  debug : Bool := false
  /-- match the brackets of a template -/
  strict : Bool := false
  /-- stands between the members of a combined token -/
  comboSeparator : Text := ", ".toList
  /-- shown for an unresolved token -/
  placeholder : Text := "[\x7bkey\x7d]".toList
  /-- the greatest number of passes -/
  maxPasses : Option Nat := none
  maxPasses_pos : ∀ n, maxPasses = some n → 0 < n := by exact Options.noCap_pos
  deriving DecidableEq, Repr

/-- Settings as they are given, the cap unchecked. -/
structure Settings where
  debug : Bool := false
  strict : Bool := false
  comboSeparator : Text := ", ".toList
  placeholder : Text := "[\x7bkey\x7d]".toList
  maxPasses : Option Int := none
  deriving DecidableEq, Repr

/-- Changes to settings; `none` changes nothing. -/
structure Overrides where
  debug : Option Bool := none
  strict : Option Bool := none
  comboSeparator : Option Text := none
  placeholder : Option Text := none
  maxPasses : Option Int := none
  deriving DecidableEq, Repr

inductive OptionsError where
  /-- a cap that allows no pass -/
  | noPass (cap : Int)
  deriving DecidableEq, Repr

def OptionsError.message : OptionsError → Text
  | .noPass n => "max_passes must be >= 1 (got ".toList ++ Text.ofInt n ++ [')']

namespace Options

/-- The options that settings stand for; a cap below one is refused. -/
def ofSettings (s : Settings) : Except OptionsError Options :=
  match s.maxPasses with
  | none => .ok {
      debug := s.debug, strict := s.strict, comboSeparator := s.comboSeparator,
      placeholder := s.placeholder }
  | some n =>
    if h : 0 < n.toNat then
      .ok {
        debug := s.debug, strict := s.strict, comboSeparator := s.comboSeparator,
        placeholder := s.placeholder, maxPasses := some n.toNat,
        maxPasses_pos := fun m hm => Option.some.inj hm ▸ h }
    else .error (.noPass n)

def toSettings (o : Options) : Settings where
  debug := o.debug
  strict := o.strict
  comboSeparator := o.comboSeparator
  placeholder := o.placeholder
  maxPasses := o.maxPasses.map Int.ofNat

theorem ofSettings_toSettings (o : Options) : ofSettings o.toSettings = .ok o := by
  obtain ⟨d, s, c, p, m, hm⟩ := o
  cases m with
  | none => rfl
  | some n =>
    have hn := hm n rfl
    simp [ofSettings, toSettings, hn]

/-- The options with the given changes made. -/
def withOverrides (o : Options) (c : Overrides) : Except OptionsError Options :=
  ofSettings {
    debug := c.debug.getD o.debug
    strict := c.strict.getD o.strict
    comboSeparator := c.comboSeparator.getD o.comboSeparator
    placeholder := c.placeholder.getD o.placeholder
    maxPasses := c.maxPasses.orElse fun _ => o.maxPasses.map Int.ofNat }

theorem withOverrides_none (o : Options) : o.withOverrides {} = .ok o :=
  ofSettings_toSettings o

/-! ## the environment -/

def debugName : Text := "CITEBUILDER_DEBUG".toList
def strictName : Text := "CITEBUILDER_STRICT".toList
def separatorName : Text := "CITEBUILDER_COMBO_SEPARATOR".toList

/-- The variables that are looked at. -/
def variableNames : List Text := [debugName, strictName, separatorName]

def setting? (env : List (Text × Text)) (name : Text) : Option Text :=
  (env.find? fun e => e.1 == name).map (·.2)

/-- The words that turn a flag on. -/
def trueWords : List Text := ["1".toList, "true".toList, "yes".toList, "on".toList]

/-- Whether a variable turns a flag on; letter case and blanks around the word do not matter. -/
def flag (env : List (Text × Text)) (name : Text) : Bool :=
  match setting? env name with
  | none => false
  | some v => trueWords.contains ((Text.trimmed v).map Char.toLower)

/-- The options that the environment asks for: two flags and the separator. -/
def ofEnvironment (env : List (Text × Text)) : Options where
  debug := flag env debugName
  strict := flag env strictName
  comboSeparator :=
    match setting? env separatorName with
    | none => ", ".toList
    | some [] => ", ".toList
    | some s => s

end Options
end Citations
