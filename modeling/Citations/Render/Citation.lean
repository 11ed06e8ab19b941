import Citations.Render.Pass
import Citations.Template.Check

/-!
# Citations

A citation is an accepted template with the data it is filled from.  Pass after pass is made over
its text, until no token is left, a pass changes nothing, or the cap on the passes is reached.

* `CitationError`       all that can go wrong, with the wording;
* `Citation.make`       checks template and data;
* `Stage`, `Citation.next`   where a run stands, and the pass that follows; `Citation.nextBy` has
                         the pass as an argument;
* `Citation.texts`      the texts after each pass, and `Citation.build` the finished citation;
* `Engine`              renders many citations with the same options.

In debug mode a placeholder may bring back the fragment that it stands for, so a run need not end;
`texts` and `build` therefore make no more than `limit` steps.
-/

namespace Citations

/-- All that can go wrong with a citation. -/
inductive CitationError where
  | options (e : OptionsError)
  | template (e : TemplateError)
  /-- the data is no mapping but a value of this kind -/
  | data (kind : Text)
  | placeholder (e : PlaceholderError)
  /-- there is nothing to stand between the members of a combined key -/
  | unjoined
  /-- the stack does not hold the fragments around each other -/
  | stack
  /-- the run has not ended within its limit -/
  | endless
  deriving DecidableEq, Repr

def CitationError.message : CitationError → Text
  | .options e => e.message
  | .template e => e.message
  | .data kind => "invalid data mapping: expected a mapping, got ".toList ++ kind
  | .placeholder e => e.message
  | .unjoined => "'list' object has no attribute 'join'".toList
  | .stack => "maximum recursion depth exceeded".toList
  | .endless => "no end of passes".toList

namespace Template

/-- A check of the brackets with its note, that the template has passed. -/
def notePassed (t : Text) : Except TemplateError Unit → Noted TemplateError Unit
  | .error e => ⟨[], .error e⟩
  | .ok () => ⟨[.nestingPassed t], .ok ()⟩

/-- The check of a template; only a strict one makes a note. -/
def validate (strict : Bool) (t : Text) : Noted TemplateError Unit :=
  if strict then notePassed t (check true t) else ⟨[], check false t⟩

/-- The check of the brackets alone. -/
def validateNesting (t : Text) : Noted TemplateError Unit := notePassed t (checkNesting t)

theorem validate_outcome (strict : Bool) (t : Text) : (validate strict t).outcome = check strict t := by
  cases strict
  · rfl
  · simp only [validate, if_true]
    cases check true t <;> rfl

end Template

/-- An accepted template with its data and options, and where things lie as it is rendered. -/
structure Citation where
  template : Text
  data : Entries
  options : Options
  memory : Memory := .blank
  accepted : Template.check options.strict template = .ok ()

namespace Citation

/-- The entries of a mapping; nothing at all is the empty mapping. -/
def entriesOf : Value → Except CitationError Entries
  | .null => .ok []
  | .dict es => .ok es
  | v => .error (.data v.kindName)

/-- Checks the template, folded to one line, and then the data. -/
def make (options : Options) (template : Text) (data : Value) (memory : Memory := .blank) :
    Noted CitationError Citation :=
  let t := Template.normalize template
  match h : Template.check options.strict t with
  | .error e => ⟨[], .error (.template e)⟩
  | .ok () =>
    ⟨(Template.validate options.strict t).notes,
      (entriesOf data).map fun es => ⟨t, es, options, memory, h⟩⟩

/-- The citation with things in other places. -/
def inMemory (c : Citation) (memory : Memory) : Citation := { c with memory := memory }

def context (c : Citation) : Render.Context := ⟨c.data, c.options, c.memory⟩

end Citation

/-! ## runs -/

/-- Where a run stands: how many passes it has made, and the text after them. -/
structure Stage where
  passes : Nat
  text : Text
  deriving DecidableEq, Repr

namespace Citation

def start (c : Citation) : Stage := ⟨0, c.template⟩

/-- Whether the cap allows no pass after `n` of them. -/
def atCap (c : Citation) (n : Nat) : Bool :=
  match c.options.maxPasses with
  | none => false
  | some cap => cap ≤ n

section
variable {ε : Type} (pass : Text → Noted ε Text)

/-- The stage after the next pass, or `none` where the run ends. -/
def nextBy (c : Citation) (s : Stage) : Noted ε (Option Stage) :=
  if Template.hasTokenSign s.text then
    if c.atCap s.passes then do
      Noted.tell [.capped s.passes s.text]
      return none
    else do
      Render.noteIf c.context (.parsing (s.passes + 1) s.text)
      let t ← pass s.text
      Render.noteIf c.context (.parsed (s.passes + 1) t)
      if t = s.text then do
        Noted.tell [.stuck s.text]
        return none
      else return some ⟨s.passes + 1, t⟩
  else return none

end

/-- The stage after the next pass over the data of the citation. -/
def next (c : Citation) (s : Stage) : Noted PlaceholderError (Option Stage) :=
  c.nextBy (Render.pass c.context) s

/-- The texts after each step from a stage on, in at most `limit` steps. -/
def textsBy (step : Stage → Noted CitationError (Option Stage)) :
    Nat → Stage → Noted CitationError (List Text)
  | 0, _ => ⟨[], .error .endless⟩
  | limit + 1, s => do
    match ← step s with
    | none => return []
    | some s' => return s'.text :: (← textsBy step limit s')

/-- The texts after each pass from a stage on, in at most `limit` steps. -/
def textsFrom (c : Citation) (limit : Nat) (s : Stage) : Noted CitationError (List Text) :=
  textsBy (fun s => (c.next s).mapError .placeholder) limit s

def texts (limit : Nat) (c : Citation) : Noted CitationError (List Text) := c.textsFrom limit c.start

/-- What a run leaves: the last of its texts without the escapes. -/
def finish (c : Citation) (ts : List Text) : Text :=
  Escaper.syntaxSigns.unescape (ts.getLastD c.template)

def build (limit : Nat) (c : Citation) : Noted CitationError Text := do
  let ts ← c.texts limit
  return c.finish ts

theorem textsFrom_zero (c : Citation) (s : Stage) :
    c.textsFrom 0 s = ⟨[], .error .endless⟩ := rfl

theorem textsFrom_succ (c : Citation) (limit : Nat) (s : Stage) :
    c.textsFrom (limit + 1) s = (do
      match ← (c.next s).mapError .placeholder with
      | none => return []
      | some s' => return s'.text :: (← c.textsFrom limit s')) := rfl

end Citation

/-- Renders templates with the same options. -/
structure Engine where
  options : Options

namespace Engine

/-- The citation of a template with data, checked and built at once. -/
def render (limit : Nat) (e : Engine) (template : Text) (data : Value)
    (memory : Memory := .blank) : Noted CitationError Text := do
  let c ← Citation.make e.options template data memory
  c.build limit

/-- One citation per record, up to the first that fails. -/
def renderMany (limit : Nat) (e : Engine) (template : Text) (records : List Value)
    (memory : Memory := .blank) : Noted CitationError (List Text) :=
  records.mapM fun data => e.render limit template data memory

end Engine
end Citations
