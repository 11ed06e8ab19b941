import Citations.Log.Level
import Citations.Value.Written

/-!
# Notes of a rendering

What a rendering tells about itself, each note with its level and its message.

* `traceMessage`   a message with named values behind it;
* `Note`           the kinds of notes;
* `Noted ε α`      a result, or an error, with the notes made on the way.
-/

namespace Citations

/-- A message, and behind it the named values if there are any. -/
def traceMessage (message : Text) (context : List (Text × Value)) : Text :=
  if context = [] then message
  else message ++ " | ctx=".toList ++
    (Value.dict (Entries.ofList (context.map fun (k, v) => (.text k, v)))).written

/-- The message of a pass, with its number and a text. -/
def passMessage (message : Text) (pass : Nat) (t : Text) : Text :=
  message ++ " | ctx=\x7b'pass_no': ".toList ++ Text.ofNat pass ++ ", 'text': ".toList ++
    Text.quoted t ++ ['}']

inductive Note where
  | nestingPassed (template : Text)
  | segment (text : Text)
  | unresolved (key : Text)
  | parsing (pass : Nat) (text : Text)
  | parsed (pass : Nat) (text : Text)
  /-- the cap on the passes was reached -/
  | capped (passes : Nat) (text : Text)
  /-- a pass changed nothing -/
  | stuck (text : Text)
  deriving DecidableEq, Repr

namespace Note

def level : Note → Int
  | .capped .. | .stuck .. => Level.warning
  | _ => Level.debug

def message : Note → Text
  | .nestingPassed t => "strict bracket check passed for ".toList ++ Text.quoted t
  | .segment t => traceMessage "segment".toList [("segment".toList, .text t)]
  | .unresolved k => traceMessage "unresolved token".toList [("key".toList, .text k)]
  | .parsing n t => passMessage "parsing".toList n t
  | .parsed n t => passMessage "parsed".toList n t
  | .capped n t =>
    "stopped after ".toList ++ Text.ofNat n ++ " passes with tokens left: ".toList ++ Text.quoted t
  | .stuck t => "tokens outside any resolvable fragment left as-is: ".toList ++ Text.quoted t

end Note

/-! ## results with notes -/

/-- A result or an error, with the notes made on the way. -/
structure Noted (ε α : Type) where
  notes : List Note
  outcome : Except ε α

namespace Noted
variable {ε α β : Type}

/-- One step after the other; an error ends the way, and the notes before it stay. -/
def andThen (x : Noted ε α) (f : α → Noted ε β) : Noted ε β :=
  match x.outcome with
  | .error e => ⟨x.notes, .error e⟩
  | .ok a => ⟨x.notes ++ (f a).notes, (f a).outcome⟩

instance : Monad (Noted ε) where
  pure a := ⟨[], .ok a⟩
  bind := andThen

def tell (ns : List Note) : Noted ε Unit := ⟨ns, .ok ()⟩

def ofExcept (x : Except ε α) : Noted ε α := ⟨[], x⟩

def mapError {δ : Type} (f : ε → δ) (x : Noted ε α) : Noted δ α := ⟨x.notes, x.outcome.mapError f⟩

@[ext] theorem ext {x y : Noted ε α} (hn : x.notes = y.notes) (ho : x.outcome = y.outcome) :
    x = y := by
  cases x
  cases y
  simp_all

theorem pure_def (a : α) : (pure a : Noted ε α) = ⟨[], .ok a⟩ := rfl
theorem bind_def (x : Noted ε α) (f : α → Noted ε β) : (x >>= f) = x.andThen f := rfl

theorem bind_ok (ns : List Note) (a : α) (f : α → Noted ε β) :
    ((⟨ns, .ok a⟩ : Noted ε α) >>= f) = ⟨ns ++ (f a).notes, (f a).outcome⟩ := rfl
theorem bind_error (ns : List Note) (e : ε) (f : α → Noted ε β) :
    ((⟨ns, .error e⟩ : Noted ε α) >>= f) = ⟨ns, .error e⟩ := rfl

theorem pure_bind' (a : α) (f : α → Noted ε β) : ((pure a : Noted ε α) >>= f) = f a := rfl

theorem bind_assoc' {γ : Type} (x : Noted ε α) (f : α → Noted ε β) (g : β → Noted ε γ) :
    (x >>= f >>= g) = x >>= fun a => f a >>= g := by
  obtain ⟨ns, o⟩ := x
  cases o with
  | error e => rfl
  | ok a =>
    simp only [bind_ok]
    cases hf : (f a).outcome with
    | error e => simp [bind_def, andThen, hf]
    | ok b => simp [bind_def, andThen, hf]

theorem id_map' (x : Noted ε α) : id <$> x = x := by
  obtain ⟨ns, o⟩ := x
  cases o <;> simp [Functor.map, andThen]

instance : LawfulMonad (Noted ε) :=
  LawfulMonad.mk' (Noted ε) id_map' pure_bind' bind_assoc'

end Noted
end Citations
