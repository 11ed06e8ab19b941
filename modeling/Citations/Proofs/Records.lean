import Citations.Log.Record
import Citations.Proofs.Printed

/-!
# Records on a line

A record in the JSON format is one line, whatever quotes, escapes, line ends or pieces of the format
stand in its name, its message and its context: they are written in quotes, and none of them comes
to stand between the members.  Read back, the line is the object of the record's own members, and
of the context if that is a mapping with something in it.

* `Entries.ofList_of_distinct`   entries of which no two have one key;
* `Json.line_of_keyed`           a mapping with texts as keys, written on a line and read back;
* `Record.line_of_nil`, `Record.line_of_context`   the line of a record without and with a context;
* `Record.line_read_back`        the line of a record, and what is read of it.
-/

namespace Citations
open Text

namespace Entries

theorem insert_of_absent {k v : Value} {es : Entries} (h : ∀ e ∈ es, e.1.sameKey k = false) :
    insert k v es = es ++ [(k, v)] := by
  induction es with
  | nil => rfl
  | cons e es ih =>
    obtain ⟨he, hes⟩ := List.forall_mem_cons.mp h
    rw [insert, if_neg (he ▸ Bool.false_ne_true), ih hes, List.cons_append]

/-- No two entries have one key. -/
def Distinct (es : Entries) : Prop := es.Pairwise fun a b => a.1.sameKey b.1 = false

theorem overlay_of_distinct {old new : Entries} (h : Distinct (old ++ new)) :
    old.overlay new = old ++ new := by
  induction new generalizing old with
  | nil => exact (List.append_nil old).symm
  | cons e new ih =>
    have habsent : ∀ e' ∈ old, e'.1.sameKey e.1 = false := fun e' he' =>
      (List.pairwise_append.mp h).2.2 e' he' e List.mem_cons_self
    have hsplit : old ++ e :: new = (old ++ [e]) ++ new := by
      rw [List.append_assoc, List.singleton_append]
    have hstep : old.overlay (e :: new) = (old ++ [e]).overlay new :=
      congrArg (·.overlay new) (insert_of_absent habsent)
    rw [hstep, ih (hsplit ▸ h), hsplit]

theorem ofList_of_distinct {es : Entries} (h : Distinct es) : ofList es = es :=
  overlay_of_distinct (List.nil_append es ▸ h)

/-- Entries with texts as keys. -/
def keyed (es : List (Text × Value)) : Entries := es.map fun e => (.text e.1, e.2)

theorem distinct_keyed {es : List (Text × Value)} (h : (es.map Prod.fst).Nodup) :
    Distinct (keyed es) := by
  refine List.pairwise_map.mpr ((List.pairwise_map.mp h).imp fun {a b} hne => ?_)
  rw [Value.sameKey_text, beq_eq_false_iff_ne]
  exact hne

end Entries

namespace Json
open Entries

theorem exists_printEntries {es : List (Text × Value)} (h : ∀ e ∈ es, ∃ t, print e.2 = .ok t) :
    ∃ ms, printEntries (keyed es) = .ok ms := by
  induction es with
  | nil => exact ⟨[], by rw [keyed, List.map_nil, printEntries]⟩
  | cons e es ih =>
    obtain ⟨⟨t, ht⟩, hes⟩ := List.forall_mem_cons.mp h
    obtain ⟨ms, hms⟩ := ih hes
    refine ⟨(quoted e.1 ++ ':' :: ' ' :: t) :: ms, ?_⟩
    rw [keyed, List.map_cons, ← keyed, printEntries, ht, hms]
    rfl

theorem imageEntries_keyed (es : List (Text × Value)) :
    imageEntries (keyed es) = keyed (es.map fun e => (e.1, image e.2)) := by
  induction es with
  | nil => rfl
  | cons e es ih =>
    rw [keyed, List.map_cons, ← keyed, imageEntries, ih]
    rfl

/-- A mapping of texts, no two the same, to values that can be written is a line, and is read back
with what is read of its values. -/
theorem line_of_keyed {es : List (Text × Value)} (hkeys : (es.map Prod.fst).Nodup)
    (h : ∀ e ∈ es, ∃ t, print e.2 = .ok t) :
    ∃ line, print (.dict (keyed es)) = .ok line ∧ line.NoControl ∧
      ∀ depth, nestingEntries (keyed es) < depth →
        readWithin depth line = .ok (.dict (keyed (es.map fun e => (e.1, image e.2)))) := by
  obtain ⟨ms, hms⟩ := exists_printEntries h
  obtain ⟨line, hline⟩ : ∃ line, print (.dict (keyed es)) = .ok line :=
    ⟨_, by rw [print, hms]; rfl⟩
  have hdistinct : Distinct (keyed (es.map fun e => (e.1, image e.2))) :=
    distinct_keyed (by rwa [List.map_map])
  have himage : image (.dict (keyed es)) = .dict (keyed (es.map fun e => (e.1, image e.2))) := by
    rw [image, imageEntries_keyed, ofList_of_distinct hdistinct]
  refine ⟨line, hline, noControl_print _ hline, fun depth hd => ?_⟩
  rw [← himage]
  exact readWithin_print hline (by rw [nesting]; exact hd)

end Json

namespace Record

/-- The members that every record has. -/
def members (stamp message : Text) (r : Record) : List (Text × Value) := [
  ("ts".toList, .text stamp),
  ("level".toList, .text (Level.name r.level)),
  ("module".toList, .text r.name),
  ("msg".toList, .text message),
  ("version".toList, .text version)]

section
variable {r : Record} {stamp message : Text}

theorem object_of_nil (h : r.contextEntries = []) :
    r.object stamp message = .dict (Entries.keyed (members stamp message r)) := by
  rw [object, h]
  rfl

theorem object_of_ne_nil (h : r.contextEntries ≠ []) : r.object stamp message =
    .dict (Entries.keyed (members stamp message r ++ [("ctx".toList, .dict r.contextEntries)])) := by
  rw [object]
  split
  · next hnil => exact absurd hnil h
  · rfl

theorem json_of_ok (hs : r.stamp = .ok stamp) (hm : r.message = .ok message) {line : Text}
    (h : Json.print (r.object stamp message) = .ok line) : r.json = .ok line := by
  rw [json, hs, hm]
  exact mapError_eq_ok.mpr h

theorem print_members : ∀ e ∈ members stamp message r, ∃ t, Json.print e.2 = .ok t := by
  intro e he
  obtain ⟨k, _, rfl⟩ : ∃ k t, e = (k, .text t) := by
    simp only [members, List.mem_cons, List.not_mem_nil, or_false] at he
    rcases he with rfl | rfl | rfl | rfl | rfl
    all_goals exact ⟨_, _, rfl⟩
  exact ⟨_, by rw [Json.print]⟩

theorem nestingEntries_members (v : Value) :
    Json.nestingEntries (Entries.keyed (members stamp message r ++ [("ctx".toList, v)])) =
      Json.nesting v := by
  simp [Entries.keyed, members, Json.nestingEntries, Json.nesting]

/-- Only a mapping with something in it is written. -/
theorem contextEntries_ne_nil_iff :
    r.contextEntries ≠ [] ↔ ∃ e es, r.context = .dict (e :: es) := by
  unfold contextEntries
  split
  · next es h =>
    rw [h]
    cases es with
    | nil => simp
    | cons e es => simp
  · next h =>
    constructor
    · exact fun hne => absurd rfl hne
    · rintro ⟨e, es, heq⟩
      exact absurd heq (h _)

theorem nodup_members : ((members stamp message r).map Prod.fst).Nodup := by
  simp only [members, List.map_cons, List.map_nil]
  decide

theorem nodup_members_context (v : Value) :
    ((members stamp message r ++ [("ctx".toList, v)]).map Prod.fst).Nodup := by
  simp only [members, List.map_cons, List.map_nil, List.cons_append, List.nil_append]
  decide

/-- The line of a record without a context. -/
theorem line_of_nil (hs : r.stamp = .ok stamp) (hm : r.message = .ok message)
    (h : r.contextEntries = []) :
    ∃ line, r.json = .ok line ∧ line.NoControl ∧ ∀ depth, 0 < depth →
      Json.readWithin depth line = .ok (.dict (Entries.keyed (members stamp message r))) := by
  obtain ⟨line, hline, hplain, hread⟩ := Json.line_of_keyed nodup_members print_members
  rw [← object_of_nil h] at hline
  exact ⟨line, json_of_ok hs hm hline, hplain, hread⟩

/-- The line of a record with a context. -/
theorem line_of_context (hs : r.stamp = .ok stamp) (hm : r.message = .ok message)
    {e : Value × Value} {es : Entries} (h : r.context = .dict (e :: es))
    (hprint : ∃ t, Json.print r.context = .ok t) :
    ∃ line, r.json = .ok line ∧ line.NoControl ∧ ∀ depth, Json.nesting r.context < depth →
      Json.readWithin depth line = .ok (.dict (Entries.keyed
        (members stamp message r ++ [("ctx".toList, Json.image r.context)]))) := by
  have hctx : r.contextEntries ≠ [] := contextEntries_ne_nil_iff.mpr ⟨e, es, h⟩
  have hentries : Value.dict r.contextEntries = r.context := by
    rw [contextEntries, h]
  have hall : ∀ e ∈ members stamp message r ++ [("ctx".toList, r.context)],
      ∃ t, Json.print e.2 = .ok t :=
    List.forall_mem_append.mpr ⟨print_members, List.forall_mem_singleton.mpr hprint⟩
  obtain ⟨line, hline, hplain, hread⟩ := Json.line_of_keyed (nodup_members_context r.context) hall
  rw [nestingEntries_members] at hread
  rw [← hentries, ← object_of_ne_nil hctx] at hline
  exact ⟨line, json_of_ok hs hm hline, hplain, hread⟩

end

/-- A record whose time stamp, message and context can be written is a line without control
characters.  A reader that goes deep enough reads it as one object: the stamp, the name of the level,
the name of the logger and the message as they are, the version, and behind them the context if that
is a mapping that is not empty. -/
theorem line_read_back {name : Text} {level : Int} {created : Binary64} {pattern : Text}
    {args : List Value} {context : Value} {stamp message : Text}
    (hstamp : Stamp.ofTime created = .ok stamp)
    (hmessage : Message.fill pattern args = .ok message)
    (hcontext : ∀ es, context = .dict es → ∃ t, Json.print context = .ok t) :
    ∃ line, json ⟨name, level, Stamp.ofTime created, Message.fill pattern args, context⟩ = .ok line ∧
      line.NoControl ∧
      ((∀ e es, context ≠ .dict (e :: es)) → ∀ depth, 0 < depth →
        Json.readWithin depth line = .ok (.dict [
          (.text "ts".toList, .text stamp),
          (.text "level".toList, .text (Level.name level)),
          (.text "module".toList, .text name),
          (.text "msg".toList, .text message),
          (.text "version".toList, .text version)])) ∧
      ∀ e es, context = .dict (e :: es) → ∀ depth, Json.nesting context < depth →
        Json.readWithin depth line = .ok (.dict [
          (.text "ts".toList, .text stamp),
          (.text "level".toList, .text (Level.name level)),
          (.text "module".toList, .text name),
          (.text "msg".toList, .text message),
          (.text "version".toList, .text version),
          (.text "ctx".toList, Json.image context)]) := by
  let r : Record := ⟨name, level, Stamp.ofTime created, Message.fill pattern args, context⟩
  by_cases hctx : r.contextEntries = []
  · obtain ⟨line, hline, hplain, hread⟩ := line_of_nil hstamp hmessage hctx
    refine ⟨line, hline, hplain, fun _ => hread, fun e es heq => ?_⟩
    exact absurd hctx (contextEntries_ne_nil_iff.mpr ⟨e, es, heq⟩)
  · obtain ⟨e, es, heq⟩ := contextEntries_ne_nil_iff.mp hctx
    obtain ⟨line, hline, hplain, hread⟩ := line_of_context hstamp hmessage heq (hcontext _ heq)
    exact ⟨line, hline, hplain, fun hnot => absurd heq (hnot e es), fun _ _ _ => hread⟩

/-- A message that ends the line and the object, and begins another one. -/
theorem line_read_back_forged : ∃ line,
    json ⟨"a\"b".toList, Level.warning, Stamp.ofTime (.finite false 0 0),
      Message.fill "%s\x7d\n\x7b\"level\": 7".toList [.text "\"".toList],
      .dict [(.text "k\t".toList, .tuple [.null])]⟩ = .ok line ∧
    line.NoControl ∧
    Json.readWithin 3 line = .ok (.dict [
      (.text "ts".toList, .text "1970-01-01T00:00:00.000Z".toList),
      (.text "level".toList, .text "WARNING".toList),
      (.text "module".toList, .text "a\"b".toList),
      (.text "msg".toList, .text "\"\x7d\n\x7b\"level\": 7".toList),
      (.text "version".toList, .text "1.0.0".toList),
      (.text "ctx".toList, .dict [(.text "k\t".toList, .list [.null])])]) := by
  have hstamp : Stamp.ofTime (.finite false 0 0) = .ok "1970-01-01T00:00:00.000Z".toList := by
    decide +kernel
  have hmessage : Message.fill "%s\x7d\n\x7b\"level\": 7".toList [.text "\"".toList] =
      .ok "\"\x7d\n\x7b\"level\": 7".toList := by decide +kernel
  have hcontext : ∀ es, Value.dict [(.text "k\t".toList, .tuple [.null])] = .dict es →
      ∃ t, Json.print (.dict [(.text "k\t".toList, .tuple [.null])]) = .ok t :=
    fun _ _ => ⟨_, rfl⟩
  obtain ⟨line, hline, hplain, _, hread⟩ := line_read_back hstamp hmessage hcontext
  exact ⟨line, hline, hplain, hread _ _ rfl 3 (by decide)⟩

end Record
end Citations
