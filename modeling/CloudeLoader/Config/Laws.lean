import CloudeLoader.Config.Store
import CloudeLoader.Lib.JsonTree

/-!
# Reading what was written (`config.cc`)

`set` compares the stored value with the new one by `operator!=` and does not write if the two are not told apart.
-/

namespace CloudeLoader.Config

open JsonValue List Option

open Engine (Bytes utf8)

def Apart (p q : List Bytes) : Prop := ¬ p <+: q ∧ ¬ q <+: p

instance {p q : List Bytes} : Decidable (Apart p q) := inferInstanceAs (Decidable (_ ∧ _))

def TellsNull (equal : JsonValue → JsonValue → Bool) : Prop := ∀ v, equal .null v = true ↔ v = .null

/-- If a value is stored at the path, it is the new one or is told from it; otherwise the new one is not `null`, or `null` is
the default that is read. -/
def Written (equal : JsonValue → JsonValue → Bool) (j : JsonValue) (path : List Bytes) (value default : JsonValue) : Prop :=
  match j.get? path with
  | some old => equal old value = true → old = value
  | none => value = .null → default = .null

section Laws

variable {equal : JsonValue → JsonValue → Bool} {j value default : JsonValue} {k last last' : Bytes} {names names' : List Bytes}

theorem Comparison.tellsNull (cmp : Comparison) : TellsNull cmp.equal := fun v => by rw [cmp.exact rfl, eq_comm]

theorem get_eq (j : JsonValue) (names : List Bytes) (last : Bytes) (default : JsonValue) :
    get j names last default = (j.get? (names ++ [last])).getD default := by
  induction names generalizing j with
  | nil =>
    rw [get, nil_append, get?_cons]
    cases j.field? last with
    | none => rfl
    | some v => simp
  | cons k names ih =>
    rw [get, cons_append, get?_cons]
    cases j.field? k with
    | none => rfl
    | some v => exact ih v

theorem isObject_child : (child j k).isObject = true := by
  unfold child
  cases h : (j.field? k).filter isObject with
  | none => rfl
  | some v => exact (filter_eq_some_iff.1 h).2

theorem get?_child {p} (hp : p ≠ []) : (child j k).get? p = j.get? (k :: p) := by
  obtain ⟨l, p, rfl⟩ := exists_cons_of_ne_nil hp
  rw [get?_cons, field?_child, get?_cons]
  cases j.field? k with
  | none => rfl
  | some v => rw [getD_some, bind_some, get?_cons]

theorem get?_assignBy_cons {p} :
    (assignBy equal j (k :: names) last value).get? (k :: p) = (assignBy equal (child j k) names last value).get? p :=
  get?_cons_of_some (by rw [assignBy, field?_setField, if_pos rfl])

theorem get?_assignBy_self (hnull : TellsNull equal) :
    (assignBy equal j names last value).get? (names ++ [last]) =
      match j.get? (names ++ [last]) with
      | some old => some (if equal old value then old else value)
      | none => if value = .null then none else some value := by
  induction names generalizing j with
  | nil =>
    have hput : ∀ v : JsonValue, v.get? [last] = v.field? last := by
      intro v
      rw [get?_cons]
      cases v.field? last with
      | none => rfl
      | some w => simp
    rw [nil_append, hput, hput, assignBy, putMemberBy, field?_asObject]
    cases hold : j.field? last with
    | none =>
      rw [getD_none]
      by_cases hval : value = .null
      · rw [if_pos ((hnull value).2 hval), field?_asObject, hold, if_pos hval]
      · rw [if_neg (fun h => hval ((hnull value).1 h)), field?_setField, if_pos rfl, if_neg hval]
    | some old =>
      rw [getD_some]
      by_cases heq : equal old value = true
      · rw [if_pos heq, field?_asObject, hold]
        simp [heq]
      · rw [if_neg heq, field?_setField]
        simp [heq]
  | cons k names ih =>
    rw [cons_append, get?_assignBy_cons, ih, get?_child (by simp)]

theorem isObject_assignBy : (assignBy equal j names last value).isObject = true := by
  cases names with
  | nil =>
    rw [assignBy, putMemberBy]
    split
    · unfold asObject
      split
      · next h => exact h
      · rfl
    · exact isObject_setField ..
  | cons k names => exact isObject_setField ..

theorem exists_object_assignBy (p rest : List Bytes) :
    ∃ e, (assignBy equal j (p ++ rest) last value).get? p = some e ∧ e.isObject = true := by
  induction p generalizing j with
  | nil => exact ⟨_, get?_nil, isObject_assignBy⟩
  | cons k p ih =>
    rw [cons_append, get?_assignBy_cons]
    exact ih

theorem apart_cons : Apart (k :: names) (k :: names') ↔ Apart names names' := by
  simp [Apart, cons_prefix_cons]

theorem apart_of_ne (h : k ≠ last) : Apart (k :: names) (last :: names') :=
  ⟨fun hpre => h (cons_prefix_cons.1 hpre).1, fun hpre => h (cons_prefix_cons.1 hpre).1.symm⟩

theorem apart_concat {p q} (h : Apart p q) : Apart (p ++ [k]) q := by
  refine ⟨fun hpq => h.1 ((prefix_append p [k]).trans hpq), fun hqp => ?_⟩
  rcases prefix_concat_iff.1 hqp with rfl | hqp
  · exact h.1 (prefix_append p [k])
  · exact h.2 hqp

theorem get?_assignBy_of_apart {q} (h : Apart (names ++ [last]) q) :
    (assignBy equal j names last value).get? q = j.get? q := by
  -- the induction is on the path that is set; the two part at its first name or below it
  obtain ⟨l, q, rfl⟩ : ∃ l q', q = l :: q' := exists_cons_of_ne_nil fun hq => h.2 (hq ▸ nil_prefix)
  induction names generalizing j l q with
  | nil =>
    have hne : l ≠ last := by
      rintro rfl
      exact h.1 (by simp)
    rw [get?_cons, get?_cons, assignBy, field?_putMemberBy_ne hne, field?_asObject]
  | cons k names ih =>
    by_cases hl : l = k
    · subst hl
      have h' : Apart (names ++ [last]) q := apart_cons.1 h
      obtain ⟨m, q, rfl⟩ : ∃ m q', q = m :: q' := exists_cons_of_ne_nil fun hq => h'.2 (hq ▸ nil_prefix)
      rw [get?_assignBy_cons, ih m q h', get?_child (by simp)]
    · rw [get?_cons, get?_cons, assignBy, field?_setField, if_neg hl]

theorem get_assignBy_self_iff (hnull : TellsNull equal) :
    get (assignBy equal j names last value) names last default = value ↔
      Written equal j (names ++ [last]) value default := by
  rw [get_eq, get?_assignBy_self hnull, Written]
  cases j.get? (names ++ [last]) with
  | none =>
    by_cases hval : value = .null
    · simp [hval]
    · simp [hval]
  | some old =>
    by_cases heq : equal old value = true
    · simp [heq]
    · simp [heq]

/-- For every comparison that tells `null` from everything else: `set` returns, what it was given is read afterwards and no
other path has changed, if and only if the condition holds. -/
theorem read_over_write_iff (hnull : TellsNull equal) (hj : j.isObject = true) (names : List Bytes) (last : Bytes)
    (value default : JsonValue) :
    ∃ j', setBy equal j names last value = some j' ∧
      ((get j' names last default = value ∧
          ∀ names' last' d, Apart (names ++ [last]) (names' ++ [last']) → get j' names' last' d = get j names' last' d) ↔
        Written equal j (names ++ [last]) value default) := by
  refine ⟨assignBy equal j names last value, by simp [setBy, settable, hj], ?_⟩
  rw [get_assignBy_self_iff hnull, and_iff_left_iff_imp]
  intro _ names' last' d hapr
  rw [get_eq, get_eq, get?_assignBy_of_apart hapr]

end Laws

theorem read_over_write_new_member :
    ∃ j', setBy sameValue (.obj []) [utf8 "a"] (utf8 "b") (.bool true) = some j' ∧
      get j' [utf8 "a"] (utf8 "b") .null = .bool true := by
  obtain ⟨j', hset, hiff⟩ := @read_over_write_iff sameValue (.obj []) (fun v => by simp [sameValue, eq_comm]) rfl
    [utf8 "a"] (utf8 "b") (.bool true) .null
  exact ⟨j', hset, (hiff.2 (fun h => by cases h)).1⟩

theorem null_not_written :
    ∃ j', setBy sameValue (.obj []) [] (utf8 "a") .null = some j' ∧ get j' [] (utf8 "a") (.bool true) ≠ .null :=
  ⟨.obj [], rfl, by decide⟩

end CloudeLoader.Config
