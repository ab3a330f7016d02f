import Mathlib.Data.List.Nodup
import NullAccess.Proofs.Drift.Judgement
import NullAccess.Report

/-!
# Verdicts by id

While a report is put together, verdicts are remembered by id.  So the verdict on an entry is that
of the first entry with its id that was asked about, its `spokesman`, and not always its own.
-/

namespace NullAccess

namespace Validator

/-- The verdict on an entry. -/
def verdictOn (v : Validator) (t : Tree) (e : Entry) : Except Fault ValidationResult :=
  (v.validate t e).1

/-- Whether an entry is valid. -/
def Approves (v : Validator) (t : Tree) (e : Entry) : Prop :=
  ∃ r, v.verdictOn t e = .ok r ∧ r.isValid = true

/-- A verdict is given only where the place of the file holds a text. -/
theorem unfit?_file_of_verdictOn {v : Validator} {t : Tree} {e : Entry} {r : ValidationResult}
    (h : v.verdictOn t e = .ok r) : e.unfit? "file" = none := by
  have hnumbered : (numbered e).unfit? "file" = e.unfit? "file" := by
    unfold numbered
    split <;> rfl
  cases hunfit : e.unfit? "file" with
  | none => rfl
  | some j =>
    rw [verdictOn, validate_fst, judge] at h
    simp [unfitFault?, hnumbered, hunfit] at h

end Validator

namespace Merge

/-- The entry whose verdict counts for `e`: the first one asked about that has the id of `e`. -/
def spokesman (asked : List Entry) (e : Entry) : Entry := (asked.find? (·.id == e.id)).getD e

/-- An entry's spokesman is settled as soon as the entry is asked about. -/
theorem spokesman_append (asked later : List Entry) (e : Entry) :
    spokesman (asked ++ e :: later) e = spokesman asked e := by
  unfold spokesman
  rw [List.find?_append]
  cases asked.find? (·.id == e.id) <;> simp

theorem spokesman_of_prefix {asked all : List Entry} {e : Entry} (h : asked ++ [e] <+: all) :
    spokesman all e = spokesman asked e := by
  obtain ⟨later, rfl⟩ := h
  rw [List.append_assoc]
  exact spokesman_append asked later e

theorem spokesman_append_of_mem {asked : List Entry} {e : Entry} (h : e ∈ asked)
    (later : List Entry) : spokesman (asked ++ later) e = spokesman asked e := by
  unfold spokesman
  rw [List.find?_append]
  cases hfind : asked.find? (·.id == e.id) with
  | some a => rfl
  | none =>
    rw [List.find?_eq_none] at hfind
    exact absurd (by simp) (hfind e h)

theorem eq_of_id_eq {es : List Entry} (hids : (es.map (·.id)).Nodup) {a e : Entry} (ha : a ∈ es)
    (he : e ∈ es) (hid : a.id = e.id) : a = e :=
  List.inj_on_of_nodup_map hids ha he hid

/-- An entry speaks for itself if no other one that is asked about has its id. -/
theorem spokesman_eq_self {asked : List Entry} {e : Entry} (h : ∀ a ∈ asked, a.id = e.id → a = e) :
    spokesman asked e = e := by
  rw [spokesman]
  cases hfind : asked.find? (·.id == e.id) with
  | none => rfl
  | some a =>
    have hid : a.id = e.id := by simpa using List.find?_some hfind
    exact h a (List.mem_of_find?_eq_some hfind) hid

theorem spokesman_mem {asked es : List Entry} {e : Entry} (hasked : ∀ a ∈ asked, a ∈ es)
    (he : e ∈ es) : spokesman asked e ∈ es := by
  rw [spokesman]
  cases hfind : asked.find? (·.id == e.id) with
  | none => exact he
  | some a => exact hasked a (List.mem_of_find?_eq_some hfind)

section

variable (v : Validator) (t : Tree)

/-- The memory of a merge after some entries were asked about: the verdict on the first entry of
each id. -/
structure Remembers (asked : List Entry) (w : Validator)
    (verdicts : List (String × ValidationResult)) : Prop where
  continues : Validator.Continues t v w
  unknown : ∀ id, asked.find? (·.id == id) = none → verdicts.find? (·.1 == id) = none
  known : ∀ id a, asked.find? (·.id == id) = some a →
    ∃ r, v.verdictOn t a = .ok r ∧ verdicts.find? (·.1 == id) = some (id, r)

/-- Whether the verdict that counts for an entry is given. -/
def Judged (all : List Entry) (e : Entry) : Prop :=
  ∃ r, v.verdictOn t (spokesman all e) = .ok r

/-- The verdict that counts for an entry. -/
def ruling (all : List Entry) (e : Entry) : ValidationResult :=
  match v.verdictOn t (spokesman all e) with
  | .ok r => r
  | .error _ => { entryId := e.id }

end

variable {v : Validator} {t : Tree} {asked all : List Entry} {m : Merge} {e : Entry}

theorem remembers_nil (v : Validator) (t : Tree) : Remembers v t [] v [] :=
  ⟨Validator.Continues.refl t v, fun _ _ => rfl, nofun⟩

theorem ruling_eq {r : ValidationResult} (h : v.verdictOn t (spokesman all e) = .ok r) :
    ruling v t all e = r := by
  rw [ruling, h]

theorem ruling_isValid_iff {all : List Entry} {e : Entry} (hjudged : Judged v t all e) :
    (ruling v t all e).isValid = true ↔ v.Approves t (spokesman all e) := by
  obtain ⟨r, hr⟩ := hjudged
  rw [ruling_eq hr]
  constructor
  · intro hvalid
    exact ⟨r, hr, hvalid⟩
  · rintro ⟨r', hr', hvalid⟩
    rw [hr, Except.ok.injEq] at hr'
    exact hr' ▸ hvalid

theorem find?_concat_of_id {id : String} (hid : e.id = id) :
    (asked ++ [e]).find? (·.id == id) = (asked.find? (·.id == id)).or (some e) := by
  rw [List.find?_append, List.find?_singleton, if_pos (by simpa using hid)]

theorem find?_concat_of_ne {id : String} (hid : e.id ≠ id) :
    (asked ++ [e]).find? (·.id == id) = asked.find? (·.id == id) := by
  rw [List.find?_append, List.find?_singleton, if_neg (by simpa using hid), Option.or_none]

/-- Asking again under a known id adds nothing to the memory. -/
theorem Remembers.again {w : Validator} {vs : List (String × ValidationResult)} {a : Entry}
    (h : Remembers v t asked w vs) (hasked : asked.find? (·.id == e.id) = some a) :
    Remembers v t (asked ++ [e]) w vs := by
  have hfind : ∀ id, (asked ++ [e]).find? (·.id == id) = asked.find? (·.id == id) := by
    intro id
    by_cases hid : e.id = id
    · rw [find?_concat_of_id hid, ← hid, hasked, Option.some_or]
    · exact find?_concat_of_ne hid
  refine ⟨h.continues, ?_, ?_⟩
  · intro id hid
    exact h.unknown id (hfind id ▸ hid)
  · intro id b hb
    exact h.known id b (hfind id ▸ hb)

/-- Asking under a new id adds the verdict to the memory. -/
theorem Remembers.learn {w w' : Validator} {vs : List (String × ValidationResult)}
    {r : ValidationResult} (h : Remembers v t asked w vs)
    (hasked : asked.find? (·.id == e.id) = none) (hr : v.verdictOn t e = .ok r)
    (hw : Validator.Continues t w w') :
    Remembers v t (asked ++ [e]) w' ((e.id, r) :: vs) := by
  refine ⟨h.continues.trans hw, ?_, ?_⟩
  · intro id hnone
    have hid : e.id ≠ id := by
      intro hid
      rw [find?_concat_of_id hid, Option.or_eq_none_iff] at hnone
      cases hnone.2
    rw [find?_concat_of_ne hid] at hnone
    rw [List.find?_cons_of_neg (by simpa using hid)]
    exact h.unknown id hnone
  · intro id b hb
    by_cases hid : e.id = id
    · subst hid
      rw [find?_concat_of_id rfl, hasked, Option.none_or, Option.some_inj] at hb
      subst hb
      exact ⟨r, hr, List.find?_cons_of_pos (by simp)⟩
    · rw [find?_concat_of_ne hid] at hb
      rw [List.find?_cons_of_neg (by simpa using hid)]
      exact h.known id b hb

/-- What asking about one entry gives, and what it leaves in memory. -/
theorem verdict_of_ok (h : Remembers v t asked m.validator m.verdicts) {r : ValidationResult}
    (hr : v.verdictOn t (spokesman asked e) = .ok r) :
    ∃ w vs, m.verdict t e = .ok (r, { m with validator := w, verdicts := vs }) ∧
      Remembers v t (asked ++ [e]) w vs := by
  cases hasked : asked.find? (·.id == e.id) with
  | some a =>
    obtain ⟨r', hr', hfind⟩ := h.known e.id a hasked
    rw [spokesman, hasked, Option.getD_some, hr', Except.ok.injEq] at hr
    subst hr
    exact ⟨m.validator, m.verdicts, by rw [verdict, hfind], h.again hasked⟩
  | none =>
    rw [spokesman, hasked, Option.getD_none] at hr
    obtain ⟨w, hvalidate, hw⟩ := Validator.validate_eq m.validator t e
    have hjudge : (m.validator.validate t e).1 = .ok r := (h.continues.validate_fst e).trans hr
    refine ⟨w, (e.id, r) :: m.verdicts, ?_, h.learn hasked hr hw⟩
    rw [hvalidate] at hjudge
    simp only at hjudge
    rw [verdict, h.unknown e.id hasked, hvalidate, hjudge]

theorem verdict_of_error (h : Remembers v t asked m.validator m.verdicts) {f : Fault}
    (hf : v.verdictOn t (spokesman asked e) = .error f) : m.verdict t e = .error f := by
  cases hasked : asked.find? (·.id == e.id) with
  | some a =>
    obtain ⟨r, hr, -⟩ := h.known e.id a hasked
    rw [spokesman, hasked, Option.getD_some, hr] at hf
    cases hf
  | none =>
    rw [spokesman, hasked, Option.getD_none] at hf
    obtain ⟨w, hvalidate, -⟩ := Validator.validate_eq m.validator t e
    have hjudge : (m.validator.validate t e).1 = .error f := (h.continues.validate_fst e).trans hf
    rw [hvalidate] at hjudge
    simp only at hjudge
    rw [verdict, h.unknown e.id hasked, hvalidate, hjudge]

end Merge

end NullAccess
