import CloudeLoader.Engine.Encoding
import CloudeLoader.Lib.JsonDoc

/-!
# Listeners for events (`cdp_api.cc`)

`on` registers a callback for an event and returns a token, and `off` removes the callback with a token.  The tokens are
consecutive 32-bit integers.
-/

namespace CloudeLoader.Cdp

open List

open Engine (Bytes)
open Function (update update_of_ne update_self)
open JsonDoc (int32 int32_inj)

structure Listener (κ : Type) where
  token : Int
  callback : κ
  deriving DecidableEq

/-- What `cdp_client` knows of listeners; an event without an entry has none. -/
structure Listeners (κ : Type) where
  nextEventToken : Int
  eventCallbacks : Bytes → List (Listener κ)
  tokenToEvent : Int → Option Bytes
  isShutdown : Bool

namespace Listeners

variable {κ : Type}

def empty : Listeners κ := ⟨1, fun _ => [], fun _ => none, false⟩

def on (c : Listeners κ) (event : Bytes) (callback : κ) : Listeners κ × Int :=
  let token := c.nextEventToken
  let c := { c with nextEventToken := int32 (token + 1) }
  if c.isShutdown then (c, token)
  else
    ({ c with
        eventCallbacks := update c.eventCallbacks event (c.eventCallbacks event ++ [⟨token, callback⟩])
        tokenToEvent := update c.tokenToEvent token (some event) }, token)

def off (c : Listeners κ) (token : Int) : Listeners κ :=
  match c.tokenToEvent token with
  | none => c
  | some event =>
    { c with
      tokenToEvent := update c.tokenToEvent token none
      eventCallbacks := update c.eventCallbacks event ((c.eventCallbacks event).filter (·.token ≠ token)) }

/-- The next token is not that of a registered callback. -/
def isFresh (c : Listeners κ) : Bool := (c.tokenToEvent c.nextEventToken).isNone

/-- The client is not shut down, and the event of every callback is found under its token. -/
structure Ok (c : Listeners κ) : Prop where
  active : c.isShutdown = false
  event : ∀ {e l}, l ∈ c.eventCallbacks e → c.tokenToEvent l.token = some e
  nodup : ∀ e, ((c.eventCallbacks e).map Listener.token).Nodup

theorem ok_empty : (empty : Listeners κ).Ok :=
  ⟨rfl, fun h => absurd h not_mem_nil, fun _ => nodup_nil⟩

variable {c : Listeners κ} {e e' : Bytes} {t : Int} {l : Listener κ} {callback : κ}

theorem on_snd : (c.on e callback).2 = c.nextEventToken := by
  unfold on
  dsimp only
  split <;> rfl

theorem on_fst (h : c.isShutdown = false) :
    (c.on e callback).1 =
      { c with
        nextEventToken := int32 (c.nextEventToken + 1)
        eventCallbacks := update c.eventCallbacks e (c.eventCallbacks e ++ [⟨c.nextEventToken, callback⟩])
        tokenToEvent := update c.tokenToEvent c.nextEventToken (some e) } := by
  simp [on, h]

theorem off_of_some (h : c.tokenToEvent t = some e) :
    c.off t =
      { c with
        tokenToEvent := update c.tokenToEvent t none
        eventCallbacks := update c.eventCallbacks e ((c.eventCallbacks e).filter (·.token ≠ t)) } := by
  simp only [off, h]

theorem Ok.mem_on_iff (h : c.Ok) :
    l ∈ (c.on e callback).1.eventCallbacks e' ↔
      l ∈ c.eventCallbacks e' ∨ (e' = e ∧ l = ⟨c.nextEventToken, callback⟩) := by
  simp only [on, h.active, Bool.false_eq_true, if_false]
  by_cases he : e' = e
  · subst he
    rw [update_self, mem_append, mem_singleton, and_iff_right rfl]
  · simp [he]

theorem Ok.on (h : c.Ok) (hfrs : c.isFresh = true) : (c.on e callback).1.Ok := by
  have hnone : c.tokenToEvent c.nextEventToken = none := Option.isNone_iff_eq_none.1 hfrs
  have hne : ∀ {e' l}, l ∈ c.eventCallbacks e' → l.token ≠ c.nextEventToken := by
    intro e' l hl heq
    rw [← heq, h.event hl] at hnone
    cases hnone
  constructor
  · simp [Listeners.on, h.active]
  · intro e' l hl
    rw [h.mem_on_iff] at hl
    simp only [Listeners.on, h.active, Bool.false_eq_true, if_false]
    rcases hl with hl | ⟨rfl, rfl⟩
    · rw [update_of_ne (hne hl)]
      exact h.event hl
    · exact update_self ..
  · intro e'
    simp only [Listeners.on, h.active, Bool.false_eq_true, if_false]
    by_cases he : e' = e
    · subst he
      rw [update_self, map_append, nodup_append]
      refine ⟨h.nodup e', nodup_singleton _, ?_⟩
      intro a ha b hb
      obtain ⟨l, hl, rfl⟩ := mem_map.1 ha
      obtain rfl := mem_singleton.1 hb
      exact hne hl
    · rw [update_of_ne he]
      exact h.nodup e'

theorem Ok.mem_off_iff (h : c.Ok) : l ∈ (c.off t).eventCallbacks e ↔ l ∈ c.eventCallbacks e ∧ l.token ≠ t := by
  unfold off
  cases ht : c.tokenToEvent t with
  | none =>
    refine (and_iff_left_of_imp fun hl heq => ?_).symm
    have hevn := h.event hl
    rw [heq, ht] at hevn
    cases hevn
  | some event =>
    by_cases he : e = event
    · subst he
      simp [update_self]
    · simp only [update_of_ne he]
      refine (and_iff_left_of_imp fun hl heq => he ?_).symm
      have hevn := h.event hl
      rw [heq, ht] at hevn
      exact (Option.some.inj hevn).symm

theorem Ok.off (h : c.Ok) (t : Int) : (c.off t).Ok := by
  have hmem : ∀ {e l}, l ∈ (c.off t).eventCallbacks e → l ∈ c.eventCallbacks e ∧ l.token ≠ t := h.mem_off_iff.1
  constructor
  · unfold Listeners.off
    split <;> exact h.active
  · intro e l hl
    obtain ⟨hl, hne⟩ := hmem hl
    unfold Listeners.off
    split
    · exact h.event hl
    · exact (update_of_ne hne ..).trans (h.event hl)
  · intro e
    unfold Listeners.off
    split
    · exact h.nodup e
    · next event _ =>
      by_cases he : e = event
      · subst he
        simp only [update_self]
        exact (h.nodup e).sublist (filter_sublist.map Listener.token)
      · simp only [update_of_ne he]
        exact h.nodup e

theorem Ok.eq_of_token {l'} (h : c.Ok) (hl : l ∈ c.eventCallbacks e) (hl' : l' ∈ c.eventCallbacks e')
    (ht : l.token = l'.token) : e = e' ∧ l = l' := by
  have hevn := h.event hl
  rw [ht, h.event hl'] at hevn
  obtain rfl := Option.some.inj hevn
  exact ⟨rfl, inj_on_of_nodup_map (h.nodup e') hl hl' ht⟩

/-! ### Tokens -/

/-- So many callbacks were registered, and the tokens in use are among theirs. -/
structure Numbered (c : Listeners κ) (n : Nat) : Prop where
  next : c.nextEventToken = int32 (n + 1)
  used : ∀ {t e}, c.tokenToEvent t = some e → ∃ i < n, t = int32 (i + 1)

theorem numbered_empty : (empty : Listeners κ).Numbered 0 :=
  ⟨show (1 : Int) = int32 1 by decide, fun h => by cases h⟩

theorem Numbered.isFresh {n} (h : c.Numbered n) (hn : n < 2 ^ 32) : c.isFresh = true := by
  unfold Listeners.isFresh
  cases ht : c.tokenToEvent c.nextEventToken with
  | none => rfl
  | some e =>
    obtain ⟨i, hi, heq⟩ := h.used ht
    rw [h.next] at heq
    have := int32_inj hn (by omega) heq
    omega

theorem Numbered.on {n} (h : c.Numbered n) : (c.on e callback).1.Numbered (n + 1) := by
  have hnext : int32 (c.nextEventToken + 1) = int32 ((n + 1 : Nat) + 1) := by
    rw [h.next]
    simp [int32]
  unfold Listeners.on
  dsimp only
  split
  · refine ⟨hnext, fun ht => ?_⟩
    obtain ⟨i, hi, heq⟩ := h.used ht
    exact ⟨i, by omega, heq⟩
  · refine ⟨hnext, fun {t e'} ht => ?_⟩
    by_cases htok : t = c.nextEventToken
    · exact ⟨n, by omega, htok.trans h.next⟩
    · simp only [update_of_ne htok] at ht
      obtain ⟨i, hi, heq⟩ := h.used ht
      exact ⟨i, by omega, heq⟩

theorem Numbered.off {n} (h : c.Numbered n) (t : Int) : (c.off t).Numbered n := by
  unfold Listeners.off
  split
  · exact h
  · refine ⟨h.next, fun {t' e'} ht => ?_⟩
    by_cases htok : t' = t
    · simp [htok] at ht
    · simp only [update_of_ne htok] at ht
      exact h.used ht

end Listeners

end CloudeLoader.Cdp
