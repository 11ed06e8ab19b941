import Citations.Proofs.Configuration

/-!
# Loggers beside the base logger

A name that begins with the base logger's is taken as the full name of a logger, any other goes below
the base logger.  But loggers hang together by the points in their names.  So a name that goes on
without a point is handed out as it is, and its logger stands beside the base logger: no record on
it comes to the handler that the base logger is set up with.

* `LoggerName.Strays`              a name that begins with the base logger's and goes on without a
                                   point;
* `LoggerName.qualified_qualified`   asking again by the name of a logger gives that logger;
* `Logbook.Heard`                  the records on a logger reach the handler of the base logger;
* `Logbook.heard_iff_not_strays`   what is handed out is heard for all names but those.
-/

namespace Citations
namespace LoggerName

/-- A name that begins with the base logger's and goes on without a point. -/
def Strays (name : Text) : Prop := ∃ c r, name = base ++ c :: r ∧ c ≠ '.'

theorem qualified_append (x : Text) : qualified (base ++ x) = base ++ x := by
  have hfull : base.isPrefixOf (base ++ x) = true :=
    List.isPrefixOf_iff_prefix.mpr (List.prefix_append base x)
  have hne : base ++ x ≠ [] := nofun
  rw [qualified, if_neg hne, if_pos hfull]

/-- Each name is full as it is, or goes below the base logger. -/
theorem qualified_cases (name : Text) :
    (∃ x, name = base ++ x ∧ qualified name = base ++ x) ∨
      (¬ base <+: name ∧ (qualified name = base ∨ qualified name = base ++ '.' :: name)) := by
  by_cases hfull : base <+: name
  · obtain ⟨x, rfl⟩ := hfull
    exact Or.inl ⟨x, rfl, qualified_append x⟩
  · refine Or.inr ⟨hfull, ?_⟩
    rw [qualified]
    split
    · exact Or.inl rfl
    · rw [if_neg fun h => hfull (List.isPrefixOf_iff_prefix.mp h)]
      exact Or.inr rfl

/-- Every full name begins with the base logger's. -/
theorem qualified_qualified (name : Text) : qualified (qualified name) = qualified name := by
  rcases qualified_cases name with ⟨x, _, hq⟩ | ⟨_, hq | hq⟩
  · rw [hq, qualified_append]
  · rw [hq, ← List.append_nil base, qualified_append]
  · rw [hq, qualified_append]

theorem belowBase_qualified_iff {name : Text} :
    belowBase (qualified name) = true ↔ ¬ Strays name := by
  rw [belowBase_iff]
  rcases qualified_cases name with ⟨x, rfl, hq⟩ | ⟨hfull, hq⟩
  · rw [hq]
    cases x with
    | nil =>
      refine iff_of_true (Or.inl (List.append_nil base)) ?_
      rintro ⟨c, r, h, _⟩
      cases List.append_cancel_left h
    | cons c r =>
      constructor
      · rintro (h | ⟨n, h⟩) ⟨d, s, hd, hne⟩
        · cases List.append_cancel_left (h.trans (List.append_nil base).symm)
        · obtain ⟨rfl, _⟩ := List.cons.inj (List.append_cancel_left h)
          exact hne (List.cons.inj (List.append_cancel_left hd)).1.symm
      · intro h
        by_cases hpoint : c = '.'
        · exact Or.inr ⟨r, by rw [hpoint]⟩
        · exact absurd ⟨c, r, rfl, hpoint⟩ h
  · refine iff_of_true ?_ ?_
    · exact hq.imp id fun h => ⟨name, h⟩
    · rintro ⟨c, r, rfl, _⟩
      exact hfull (List.prefix_append base _)

end LoggerName

namespace Logbook
open LoggerName (qualified belowBase Strays)

/-- In every run in which the base logger has been set up, the records on a logger that are at or
above its level, and above zero, reach the handler of the first set-up. -/
def Heard (logger : Text) : Prop :=
  ∀ {σ : Type} (limit : Nat) (stamp : Except StampError Text) (root : Root σ)
    (cs : List (Command σ)) (x : SetUp σ) (r : Record), (setUps cs).head? = some x →
    r.name = logger → (left limit stamp root cs).base.Passes root r.level →
    x.handler ∈ (left limit stamp root cs).base.taking r

theorem heard_of_below {logger : Text} (h : belowBase logger = true) : Heard logger := by
  intro σ limit stamp root cs x r hx hname hlevel
  rw [(remembers_left limit stamp root cs).base.taking hx (by rw [hname]; exact h), if_pos hlevel]
  exact List.mem_singleton_self _

/-- A logger beside the base logger knows only the root logger, whatever the base logger is set up
with. -/
theorem taking_of_strays {σ : Type} {name : Text} (h : Strays name) (limit : Nat)
    (stamp : Except StampError Text) (root : Root σ) (cs : List (Command σ)) {r : Record}
    (hr : r.name = qualified name) :
    (left limit stamp root cs).base.taking r =
      if Level.disabled < r.level ∧ root.level ≤ r.level then root.handlers else [] := by
  refine (remembers_left limit stamp root cs).base.taking_of_not_below ?_
  rw [hr, ← Bool.not_eq_true, LoggerName.belowBase_qualified_iff]
  exact not_not_intro h

theorem not_heard_of_strays {name : Text} (h : Strays name) : ¬ Heard (qualified name) := by
  intro hheard
  have hlevel : (left 0 (.error .noNumber) ({} : Root Unit) [.setUp .plain none ()]).base.Passes {}
      Level.error := by decide
  have hmem := hheard 0 (.error .noNumber) {} [.setUp .plain none ()] ⟨.plain, Level.info, ()⟩
    ⟨qualified name, Level.error, .error .noNumber, .ok [], .null⟩ rfl rfl hlevel
  rw [taking_of_strays h 0 (.error .noNumber) {} _ rfl, ite_self] at hmem
  cases hmem

/-- A logger asked for by its own full name is the same logger.  What is handed out for a name, by
name or by a factory, is the base logger or one below it, and is heard, for exactly the names that do
not begin with the base logger's and go on without a point. -/
theorem heard_iff_not_strays (name : Text) :
    qualified (qualified name) = qualified name ∧
    (∀ {σ : Type} (limit : Nat) (stamp : Except StampError Text) (b : Logbook σ) (id n : Text)
      (l : Int), (b.step limit stamp (.get id name)).1.reply = .logger n l → n = qualified name) ∧
    ((qualified name = LoggerName.base ∨ ∃ n, qualified name = LoggerName.base ++ '.' :: n) ↔
      ¬ Strays name) ∧
    (Heard (qualified name) ↔ ¬ Strays name) ∧
    (Strays name → ∀ {σ : Type} (limit : Nat) (stamp : Except StampError Text) (root : Root σ)
      (cs : List (Command σ)) (r : Record), r.name = qualified name →
      (left limit stamp root cs).base.taking r =
        if Level.disabled < r.level ∧ root.level ≤ r.level then root.handlers else []) := by
  refine ⟨LoggerName.qualified_qualified name, fun {σ} limit stamp b id n l h => ?_, ?_, ⟨?_, ?_⟩,
    fun hs {σ} limit stamp root cs r hr => taking_of_strays hs limit stamp root cs hr⟩
  · simp only [step] at h
    cases hb : b.request id with
    | none =>
      rw [hb] at h
      cases h
    | some b' =>
      rw [hb] at h
      cases h
      rfl
  · rw [← LoggerName.belowBase_iff, LoggerName.belowBase_qualified_iff]
  · exact fun h hs => not_heard_of_strays hs h
  · exact fun h => heard_of_below (LoggerName.belowBase_qualified_iff.mpr h)

/-- A name with a point behind `citebuilder` is heard, and one with a letter is not. -/
theorem pointed_heard : ¬ Strays "citebuilder.x".toList ∧ Heard (qualified "citebuilder.x".toList) ∧
    Strays "citebuilders".toList ∧ ¬ Heard (qualified "citebuilders".toList) := by
  have hpointed : ¬ Strays "citebuilder.x".toList := by
    rw [← LoggerName.belowBase_qualified_iff]
    decide
  have hplural : Strays "citebuilders".toList := ⟨'s', [], rfl, by decide⟩
  obtain ⟨_, _, _, hheard, _⟩ := heard_iff_not_strays "citebuilder.x".toList
  obtain ⟨_, _, _, hunheard, _⟩ := heard_iff_not_strays "citebuilders".toList
  exact ⟨hpointed, hheard.mpr hpointed, hplural, fun h => hunheard.mp h hplural⟩

/-- An error on the logger `citebuilders` is lost, though the base logger is set up. -/
theorem plural_unheard :
    ¬ (qualified "citebuilders".toList = LoggerName.base ∨
      ∃ n, qualified "citebuilders".toList = LoggerName.base ++ '.' :: n) ∧
    ((left 0 (.error .noNumber) ({} : Root Unit) [.setUp .plain none ()]).step 0 (.error .noNumber)
      (.log "citebuilders".toList Level.error "m".toList [] .null)).1.lines = [] := by
  refine ⟨?_, by rfl⟩
  rw [← LoggerName.belowBase_iff]
  decide

end Logbook
end Citations
