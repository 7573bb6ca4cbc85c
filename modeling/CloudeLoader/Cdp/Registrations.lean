import CloudeLoader.Cdp.Listeners

/-!
# The tables of registrations (`cdp_api.cc`)

The client keeps a vector of listeners for each event that has some, and the event for each token.  `on` adds to both
tables, `off` starts from the second one and `off_all` from the first one.
-/

namespace CloudeLoader.Cdp

open List Option Nat

open Engine (Bytes)
open Function (update update_of_ne update_self)
open JsonDoc (int32 int32_inj)

/-! ### The tables -/

@[ext]
structure EventTables (κ : Type) where
  nextEventToken : Int
  eventCallbacks : Bytes → Option (List (Listener κ))
  tokenToEvent : Int → Option Bytes
  isShutdown : Bool

namespace EventTables

variable {κ : Type}

def empty : EventTables κ := ⟨1, fun _ => none, fun _ => none, false⟩

def on (c : EventTables κ) (event : Bytes) (callback : κ) : EventTables κ × Int :=
  let token := c.nextEventToken
  let c := { c with nextEventToken := int32 (token + 1) }
  if c.isShutdown then (c, token)
  else
    ({ c with
        eventCallbacks := update c.eventCallbacks event
          (some ((c.eventCallbacks event).getD [] ++ [⟨token, callback⟩]))
        tokenToEvent := update c.tokenToEvent token (some event) }, token)

def off (c : EventTables κ) (token : Int) : EventTables κ :=
  match c.tokenToEvent token with
  | none => c
  | some event =>
    let c := { c with tokenToEvent := update c.tokenToEvent token none }
    match c.eventCallbacks event with
    | none => c
    | some listeners =>
      let listeners := listeners.filter (·.token ≠ token)
      { c with
        eventCallbacks := update c.eventCallbacks event (if listeners.isEmpty then none else some listeners) }

def eraseTokens (tokens : Int → Option Bytes) (listeners : List (Listener κ)) : Int → Option Bytes :=
  listeners.foldl (fun tokens l => update tokens l.token none) tokens

def offAll (c : EventTables κ) (event : Bytes) : EventTables κ :=
  match c.eventCallbacks event with
  | none => c
  | some listeners =>
    { c with
      tokenToEvent := eraseTokens c.tokenToEvent listeners
      eventCallbacks := update c.eventCallbacks event none }

def dispatch (c : EventTables κ) (method : Bytes) : List κ := ((c.eventCallbacks method).getD []).map Listener.callback

theorem on_fst {c : EventTables κ} (h : c.isShutdown = false) (event : Bytes) (callback : κ) :
    (c.on event callback).1 =
      { c with
        nextEventToken := int32 (c.nextEventToken + 1)
        eventCallbacks := update c.eventCallbacks event
          (some ((c.eventCallbacks event).getD [] ++ [⟨c.nextEventToken, callback⟩]))
        tokenToEvent := update c.tokenToEvent c.nextEventToken (some event) } := by
  simp [on, h]

theorem off_of_none {c : EventTables κ} {token : Int} (h : c.tokenToEvent token = none) : c.off token = c := by
  simp only [off, h]

theorem off_of_some {c : EventTables κ} {token : Int} {event : Bytes} {listeners : List (Listener κ)}
    (h : c.tokenToEvent token = some event) (hv : c.eventCallbacks event = some listeners) :
    c.off token =
      { c with
        tokenToEvent := update c.tokenToEvent token none
        eventCallbacks := update c.eventCallbacks event
          (if (listeners.filter (·.token ≠ token)).isEmpty then none else some (listeners.filter (·.token ≠ token))) } := by
  simp only [off, h, hv]

theorem offAll_of_none {c : EventTables κ} {event : Bytes} (hv : c.eventCallbacks event = none) : c.offAll event = c := by
  simp only [offAll, hv]

theorem eraseTokens_apply (tokens : Int → Option Bytes) (listeners : List (Listener κ)) (token : Int) :
    eraseTokens tokens listeners token = if token ∈ listeners.map Listener.token then none else tokens token := by
  induction listeners generalizing tokens with
  | nil => simp [eraseTokens]
  | cons l listeners ih =>
    have hcons : eraseTokens tokens (l :: listeners) = eraseTokens (update tokens l.token none) listeners := rfl
    rw [hcons, ih]
    by_cases ht : token = l.token
    · simp [ht]
    · simp [ht]

def toListeners (c : EventTables κ) : Listeners κ :=
  ⟨c.nextEventToken, fun e => (c.eventCallbacks e).getD [], c.tokenToEvent, c.isShutdown⟩

theorem toListeners_on (c : EventTables κ) (event : Bytes) (callback : κ) :
    (c.on event callback).1.toListeners = (c.toListeners.on event callback).1 ∧
      (c.on event callback).2 = (c.toListeners.on event callback).2 := by
  unfold on Listeners.on toListeners
  cases c.isShutdown with
  | true => exact ⟨rfl, rfl⟩
  | false =>
    refine ⟨?_, rfl⟩
    simp only [Bool.false_eq_true, if_false, Listeners.mk.injEq, true_and, and_true]
    funext e
    by_cases he : e = event
    · subst he
      simp
    · simp [update_of_ne he]

theorem toListeners_off (c : EventTables κ) (token : Int) : (c.off token).toListeners = c.toListeners.off token := by
  cases ht : c.tokenToEvent token with
  | none => simp only [off, Listeners.off, toListeners, ht]
  | some event =>
    cases hv : c.eventCallbacks event with
    | none =>
      simp only [off, Listeners.off, toListeners, ht, hv, Listeners.mk.injEq, true_and, and_true]
      funext e
      by_cases he : e = event
      · subst he
        simp [hv]
      · simp [update_of_ne he]
    | some listeners =>
      simp only [off, Listeners.off, toListeners, ht, hv, Listeners.mk.injEq, true_and, and_true]
      funext e
      by_cases he : e = event
      · subst he
        simp only [update_self, getD_some]
        split
        · next hnil => exact (isEmpty_iff.1 hnil).symm
        · rfl
      · simp [update_of_ne he]

end EventTables

inductive ListenerCall (κ : Type)
  | on (event : Bytes) (callback : κ)
  | off (token : Int)
  | offAll (event : Bytes)

def ListenerCall.isOn {κ : Type} : ListenerCall κ → Bool
  | .on _ _ => true
  | _ => false

def EventTables.call {κ : Type} (c : EventTables κ) : ListenerCall κ → EventTables κ
  | .on event callback => (c.on event callback).1
  | .off token => c.off token
  | .offAll event => c.offAll event

/-! ### The registrations -/

structure Registration (κ : Type) where
  number : Nat
  event : Bytes
  callback : κ

namespace Registration

variable {κ : Type}

def token (r : Registration κ) : Int := int32 (r.number + 1)

def toListener (r : Registration κ) : Listener κ := ⟨r.token, r.callback⟩

theorem token_toListener (r : Registration κ) : r.toListener.token = r.token := by rw [toListener]

end Registration

/-- The registrations that were not removed, and how many there were in all. -/
structure Registry (κ : Type) where
  count : Nat
  live : List (Registration κ)

namespace Registry

variable {κ : Type}

def empty : Registry κ := ⟨0, []⟩

def call (g : Registry κ) : ListenerCall κ → Registry κ
  | .on event callback => ⟨g.count + 1, g.live ++ [⟨g.count, event, callback⟩]⟩
  | .off token => { g with live := g.live.filter (·.token ≠ token) }
  | .offAll event => { g with live := g.live.filter (·.event ≠ event) }

def listeners (g : Registry κ) (event : Bytes) : List (Listener κ) :=
  (g.live.filter (·.event = event)).map Registration.toListener

def tables (g : Registry κ) : EventTables κ where
  nextEventToken := int32 (g.count + 1)
  eventCallbacks := fun event => if (g.listeners event).isEmpty then none else some (g.listeners event)
  tokenToEvent := fun token => (g.live.find? (·.token = token)).map Registration.event
  isShutdown := false

/-- The registrations are in their order, and all tokens that were returned are different. -/
structure Ok (g : Registry κ) : Prop where
  sorted : g.live.Pairwise fun r r' => r.number < r'.number
  made : ∀ r ∈ g.live, r.number < g.count
  fits : g.count ≤ 2 ^ 32

variable {g : Registry κ} {r r' : Registration κ} {event : Bytes} {token : Int} {callback : κ}

theorem ok_empty : (empty : Registry κ).Ok := ⟨List.Pairwise.nil, fun _ h => absurd h not_mem_nil, zero_le _⟩

theorem Ok.call (h : g.Ok) (c : ListenerCall κ) (hfits : c.isOn = true → g.count < 2 ^ 32) : (g.call c).Ok := by
  cases c with
  | on event callback =>
    refine ⟨?_, fun r hr => ?_, hfits rfl⟩
    · refine pairwise_append.2 ⟨h.sorted, pairwise_singleton _ _, fun r hr r' hr' => ?_⟩
      obtain rfl := mem_singleton.1 hr'
      exact h.made r hr
    · rcases mem_append.1 hr with hr | hr
      · exact lt_succ_of_lt (h.made r hr)
      · obtain rfl := mem_singleton.1 hr
        exact lt_succ_self _
  | off token => exact ⟨h.sorted.filter _, fun r hr => h.made r (mem_of_mem_filter hr), h.fits⟩
  | offAll event => exact ⟨h.sorted.filter _, fun r hr => h.made r (mem_of_mem_filter hr), h.fits⟩

theorem Ok.number_eq (h : g.Ok) {n n'} (hn : n < g.count) (hn' : n' < g.count)
    (heq : int32 (n + 1) = int32 (n' + 1)) : n = n' :=
  int32_inj (lt_of_lt_of_le hn h.fits) (lt_of_lt_of_le hn' h.fits) heq

theorem Ok.eq_of_token (h : g.Ok) (hr : r ∈ g.live) (hr' : r' ∈ g.live) (heq : r.token = r'.token) : r = r' := by
  have hnum : r.number = r'.number := h.number_eq (h.made r hr) (h.made r' hr') heq
  have hnod : (g.live.map Registration.number).Nodup :=
    pairwise_map.2 (h.sorted.imp fun hlt => ne_of_lt hlt)
  exact inj_on_of_nodup_map hnod hr hr' hnum

theorem Ok.tokenToEvent_eq_some_iff (h : g.Ok) :
    g.tables.tokenToEvent token = some event ↔ ∃ r ∈ g.live, r.token = token ∧ r.event = event := by
  show (g.live.find? _).map Registration.event = some event ↔ _
  rw [map_eq_some_iff]
  constructor
  · rintro ⟨r, hr, hevn⟩
    exact ⟨r, mem_of_find?_eq_some hr, by simpa using find?_some hr, hevn⟩
  · rintro ⟨r, hr, htok, hevn⟩
    cases hfind : g.live.find? (·.token = token) with
    | none => exact absurd (find?_eq_none.1 hfind r hr) (by simp [htok])
    | some r' =>
      have htok' : r'.token = token := by simpa using find?_some hfind
      exact ⟨r', rfl, h.eq_of_token (mem_of_find?_eq_some hfind) hr (htok'.trans htok.symm) ▸ hevn⟩

/-! The tables take the same steps as the registrations. -/

theorem next_tables : g.tables.nextEventToken = int32 (g.count + 1) := by rw [tables]

theorem eventCallbacks_tables :
    g.tables.eventCallbacks event = if (g.listeners event).isEmpty then none else some (g.listeners event) := rfl

theorem getD_tables : (g.tables.eventCallbacks event).getD [] = g.listeners event := by
  show (if _ then _ else _ : Option _).getD [] = _
  split
  · next h => exact (isEmpty_iff.1 h).symm
  · rfl

theorem mem_listeners_iff {l} : l ∈ g.listeners event ↔ ∃ r ∈ g.live, r.event = event ∧ r.toListener = l := by
  unfold listeners
  simp only [List.mem_map, List.mem_filter, decide_eq_true_eq, and_assoc]

theorem listeners_on (event' : Bytes) :
    (g.call (.on event callback)).listeners event' =
      g.listeners event' ++ if event = event' then [⟨int32 (g.count + 1), callback⟩] else [] := by
  unfold listeners call
  by_cases he : event = event'
  · simp [he, Registration.toListener, Registration.token]
  · simp [he]

theorem listeners_off : (g.call (.off token)).listeners event = (g.listeners event).filter (·.token ≠ token) := by
  unfold listeners call
  rw [List.filter_map, List.filter_filter, List.filter_filter]
  refine congrArg _ (List.filter_congr fun r _ => ?_)
  rw [Function.comp_apply, Registration.token_toListener, Bool.and_comm]

theorem listeners_offAll (event' : Bytes) :
    (g.call (.offAll event)).listeners event' = if event' = event then [] else g.listeners event' := by
  unfold listeners call
  rw [List.filter_filter]
  split
  · next he =>
    subst he
    rw [List.filter_eq_nil_iff.2 (by simp), List.map_nil]
  · next he =>
    refine congrArg _ (List.filter_congr fun r _ => ?_)
    by_cases hr : r.event = event'
    · simp [hr, he]
    · simp [hr]

theorem Ok.tables_on (h : g.Ok) (hfits : g.count < 2 ^ 32) :
    (g.call (.on event callback)).tables = (g.tables.on event callback).1 := by
  have hok : (g.call (.on event callback)).Ok := h.call _ fun _ => hfits
  rw [EventTables.on_fst rfl]
  refine EventTables.ext ?_ ?_ ?_ rfl
  · rw [next_tables, next_tables, Registry.call]
    simp [int32]
  · funext event'
    dsimp only
    rw [eventCallbacks_tables, listeners_on, getD_tables]
    by_cases he : event = event'
    · subst he
      rw [if_pos rfl, update_self, if_neg (by simp), next_tables]
    · rw [if_neg he, append_nil, update_of_ne (Ne.symm he), eventCallbacks_tables]
  · funext token
    refine ext fun e => ?_
    dsimp only
    rw [hok.tokenToEvent_eq_some_iff, next_tables]
    have hnew : (∃ r ∈ (g.call (.on event callback)).live, r.token = token ∧ r.event = e) ↔
        (∃ r ∈ g.live, r.token = token ∧ r.event = e) ∨ int32 (g.count + 1) = token ∧ event = e := by
      show (∃ r ∈ g.live ++ [_], _) ↔ _
      simp [or_and_right, exists_or, Registration.token]
    rw [hnew]
    by_cases ht : token = int32 (g.count + 1)
    · have hlive : ¬ ∃ r ∈ g.live, r.token = token ∧ r.event = e := by
        rintro ⟨r, hr, htok, -⟩
        have := int32_inj (lt_trans (h.made r hr) hfits) hfits (htok.trans ht)
        exact absurd (h.made r hr) (by omega)
      rw [or_iff_right hlive, ht, update_self, some.injEq]
      exact ⟨And.right, fun hevn => ⟨rfl, hevn⟩⟩
    · rw [update_of_ne ht, h.tokenToEvent_eq_some_iff, or_iff_left fun hnew => ht hnew.1.symm]

private theorem exists_mem_filter_iff {α} {l : List α} {f : α → Bool} {P : α → Prop} (h : ∀ x ∈ l, P x → f x = true) :
    (∃ x ∈ l.filter f, P x) ↔ ∃ x ∈ l, P x := by
  simp only [List.mem_filter]
  exact exists_congr fun x => and_congr_left fun hx => and_iff_left_of_imp fun hl => h x hl hx

theorem Ok.tables_off (h : g.Ok) : (g.call (.off token)).tables = g.tables.off token := by
  have hok : (g.call (.off token)).Ok := h.call _ fun hon => by cases hon
  cases ht : g.tables.tokenToEvent token with
  | none =>
    have hlive : g.live.filter (·.token ≠ token) = g.live := by
      refine filter_eq_self.2 fun r hr => decide_eq_true fun heq => ?_
      cases ht.symm.trans (h.tokenToEvent_eq_some_iff.2 ⟨r, hr, heq, rfl⟩)
    rw [EventTables.off_of_none ht, Registry.call, hlive]
  | some event =>
    obtain ⟨r, hr, htok, hevn⟩ := h.tokenToEvent_eq_some_iff.1 ht
    have hmem : r.toListener ∈ g.listeners event := mem_listeners_iff.2 ⟨r, hr, hevn, rfl⟩
    have hvec : g.tables.eventCallbacks event = some (g.listeners event) := by
      rw [eventCallbacks_tables, if_neg]
      intro hnil
      rw [isEmpty_iff.1 hnil] at hmem
      cases hmem
    rw [EventTables.off_of_some ht hvec]
    refine EventTables.ext (by rw [next_tables, next_tables, Registry.call]) ?_ ?_ rfl
    · funext event'
      dsimp only
      rw [eventCallbacks_tables, listeners_off]
      by_cases he : event' = event
      · rw [he, update_self]
      · -- the token is that of a listener for the other event only
        have hoth : (g.listeners event').filter (·.token ≠ token) = g.listeners event' := by
          refine filter_eq_self.2 fun l hl => decide_eq_true ?_
          obtain ⟨r', hr', hevn', rfl⟩ := mem_listeners_iff.1 hl
          rw [Registration.token_toListener]
          intro heq
          have := h.eq_of_token hr' hr (heq.trans htok.symm)
          exact he (hevn'.symm.trans ((congrArg Registration.event this).trans hevn))
        rw [update_of_ne he, hoth, eventCallbacks_tables]
    · funext token'
      refine ext fun e => ?_
      dsimp only
      rw [hok.tokenToEvent_eq_some_iff]
      by_cases ht' : token' = token
      · rw [ht']
        refine iff_of_false ?_ (by simp)
        rintro ⟨r', hr', htok', -⟩
        exact absurd htok' (by simpa using (mem_filter.1 hr').2)
      · rw [update_of_ne ht', h.tokenToEvent_eq_some_iff]
        exact exists_mem_filter_iff fun r' _ hr' => decide_eq_true fun heq => ht' (hr'.1.symm.trans heq)

theorem Ok.tables_offAll (h : g.Ok) : (g.call (.offAll event)).tables = g.tables.offAll event := by
  have hok : (g.call (.offAll event)).Ok := h.call _ fun hon => by cases hon
  by_cases hnil : (g.listeners event).isEmpty = true
  · have hvec : g.tables.eventCallbacks event = none := by rw [eventCallbacks_tables, if_pos hnil]
    have hlive : g.live.filter (·.event ≠ event) = g.live := by
      refine filter_eq_self.2 fun r hr => decide_eq_true fun heq => ?_
      have hmem : r.toListener ∈ g.listeners event := mem_listeners_iff.2 ⟨r, hr, heq, rfl⟩
      rw [isEmpty_iff.1 hnil] at hmem
      cases hmem
    rw [EventTables.offAll_of_none hvec, Registry.call, hlive]
  · have hvec : g.tables.eventCallbacks event = some (g.listeners event) := by rw [eventCallbacks_tables, if_neg hnil]
    simp only [EventTables.offAll, hvec]
    refine EventTables.ext (by rw [next_tables, next_tables, Registry.call]) ?_ ?_ rfl
    · funext event'
      dsimp only
      rw [eventCallbacks_tables, listeners_offAll]
      by_cases he : event' = event
      · rw [he, update_self, if_pos rfl]
        rfl
      · rw [if_neg he, update_of_ne he, eventCallbacks_tables]
    · funext token
      refine ext fun e => ?_
      dsimp only
      rw [EventTables.eraseTokens_apply, hok.tokenToEvent_eq_some_iff]
      have htkn : token ∈ (g.listeners event).map Listener.token ↔ ∃ r ∈ g.live, r.token = token ∧ r.event = event := by
        rw [List.mem_map]
        constructor
        · rintro ⟨l, hl, htok⟩
          obtain ⟨r, hr, hevn, rfl⟩ := mem_listeners_iff.1 hl
          exact ⟨r, hr, r.token_toListener.symm.trans htok, hevn⟩
        · rintro ⟨r, hr, htok, hevn⟩
          exact ⟨r.toListener, mem_listeners_iff.2 ⟨r, hr, hevn, rfl⟩, r.token_toListener.trans htok⟩
      split
      · next hin =>
        obtain ⟨r, hr, htok, hevn⟩ := htkn.1 hin
        refine iff_of_false ?_ (by simp)
        rintro ⟨r', hr', htok', -⟩
        obtain ⟨hlive, hne⟩ := mem_filter.1 hr'
        rw [h.eq_of_token hlive hr (htok'.trans htok.symm)] at hne
        exact absurd hevn (by simpa using hne)
      · next hout =>
        rw [h.tokenToEvent_eq_some_iff]
        exact exists_mem_filter_iff fun r' hl hr' => decide_eq_true fun heq => hout (htkn.2 ⟨r', hl, hr'.1, heq⟩)

theorem Ok.tables_call (h : g.Ok) (c : ListenerCall κ) (hfits : c.isOn = true → g.count < 2 ^ 32) :
    (g.call c).tables = g.tables.call c := by
  cases c with
  | on event callback => exact h.tables_on (hfits rfl)
  | off token => exact h.tables_off
  | offAll event => exact h.tables_offAll

theorem Ok.run (h : g.Ok) (calls : List (ListenerCall κ)) (hfits : g.count + calls.countP ListenerCall.isOn ≤ 2 ^ 32) :
    (calls.foldl Registry.call g).Ok ∧ (calls.foldl Registry.call g).tables = calls.foldl EventTables.call g.tables := by
  induction calls generalizing g with
  | nil => exact ⟨h, rfl⟩
  | cons c calls ih =>
    rw [countP_cons] at hfits
    have hon : c.isOn = true → g.count < 2 ^ 32 := by
      intro hon
      rw [if_pos hon] at hfits
      omega
    have hcnt : (g.call c).count = g.count + if c.isOn then 1 else 0 := by cases c <;> rfl
    rw [foldl_cons, foldl_cons, ← h.tables_call c hon]
    exact ih (h.call c hon) (by rw [hcnt]; omega)

end Registry

section Run

variable {κ : Type}

def tablesAfter (calls : List (ListenerCall κ)) : EventTables κ := calls.foldl EventTables.call .empty

def registryAfter (calls : List (ListenerCall κ)) : Registry κ := calls.foldl Registry.call .empty

theorem run_tables (calls : List (ListenerCall κ)) (h : calls.countP ListenerCall.isOn ≤ 2 ^ 32) :
    (registryAfter calls).Ok ∧ (registryAfter calls).tables = tablesAfter calls := by
  have hemp : (Registry.empty : Registry κ).tables = EventTables.empty := by
    refine EventTables.ext ?_ rfl rfl rfl
    rw [Registry.next_tables, EventTables.empty]
    exact (by decide : int32 ((0 : Nat) + 1) = 1)
  have hrun := Registry.ok_empty.run calls (by rw [show (Registry.empty : Registry κ).count = 0 from rfl]; omega)
  rw [hemp] at hrun
  exact hrun

/-- The two tables are each other's inverse, and hold the live registrations. -/
structure Exact (c : EventTables κ) (g : Registry κ) : Prop where
  relation : ∀ token event, c.tokenToEvent token = some event ↔
    ∃ listeners, c.eventCallbacks event = some listeners ∧ ∃ l ∈ listeners, l.token = token
  nonempty : ∀ event, c.eventCallbacks event ≠ some []
  dispatch : ∀ event, c.dispatch event = (g.live.filter (·.event = event)).map Registration.callback
  order : g.live.Pairwise fun r r' => r.number < r'.number
  returns : ∀ event callback, (c.on event callback).2 = int32 (g.count + 1)
  removes : ∀ n < g.count, c.off (int32 (n + 1)) = ({ g with live := g.live.filter (·.number ≠ n) } : Registry κ).tables
  absent : ∀ token, (∀ r ∈ g.live, r.token ≠ token) → c.off token = c
  repeated : ∀ token, (c.off token).off token = c.off token

theorem Registry.Ok.off_number {g : Registry κ} (h : g.Ok) {n : Nat} (hn : n < g.count) :
    g.call (.off (int32 (n + 1))) = { g with live := g.live.filter (·.number ≠ n) } := by
  refine congrArg (Registry.mk g.count) (filter_congr fun r hr => ?_)
  have hiff : r.token = int32 (n + 1) ↔ r.number = n :=
    ⟨h.number_eq (h.made r hr) hn, fun heq => by rw [Registration.token, heq]⟩
  rw [decide_eq_decide, ne_eq, hiff]

theorem Registry.Ok.off_absent {g : Registry κ} {token : Int} (h : ∀ r ∈ g.live, r.token ≠ token) :
    g.call (.off token) = g := by
  rw [Registry.call, filter_eq_self.2 fun r hr => decide_eq_true (h r hr)]

theorem Registry.Ok.exact {g : Registry κ} (h : g.Ok) : Exact g.tables g where
  relation token event := by
    rw [h.tokenToEvent_eq_some_iff]
    constructor
    · rintro ⟨r, hr, htok, hevn⟩
      have hmem : r.toListener ∈ g.listeners event := mem_listeners_iff.2 ⟨r, hr, hevn, rfl⟩
      refine ⟨g.listeners event, ?_, r.toListener, hmem, r.token_toListener.trans htok⟩
      rw [eventCallbacks_tables, if_neg]
      intro hnil
      rw [isEmpty_iff.1 hnil] at hmem
      cases hmem
    · rintro ⟨listeners, hl, l, hmem, htok⟩
      have hlis : g.listeners event = listeners := by rw [← getD_tables, hl, getD_some]
      rw [← hlis] at hmem
      obtain ⟨r, hr, hevn, rfl⟩ := mem_listeners_iff.1 hmem
      exact ⟨r, hr, r.token_toListener.symm.trans htok, hevn⟩
  nonempty event := by
    rw [eventCallbacks_tables]
    split
    · exact (some_ne_none _).symm
    · next hne =>
      intro hnil
      exact hne (List.isEmpty_iff.2 (some.inj hnil))
  dispatch event := by
    rw [EventTables.dispatch, getD_tables, listeners, List.map_map]
    rfl
  order := h.sorted
  returns event callback := by rw [(EventTables.toListeners_on _ _ _).2, Listeners.on_snd, EventTables.toListeners, next_tables]
  removes n hn := by rw [← h.tables_off, h.off_number hn]
  absent token hout := by rw [← h.tables_off, off_absent hout]
  repeated token := by
    have hok : (g.call (.off token)).Ok := h.call _ fun hon => by cases hon
    rw [← h.tables_off, ← hok.tables_off, off_absent]
    intro r hr
    simpa using (mem_filter.1 hr).2

/-- As long as `on` was called at most `2 ^ 32` times, the tables are exact after any calls. -/
theorem tables_exact (calls : List (ListenerCall κ)) (h : calls.countP ListenerCall.isOn ≤ 2 ^ 32) :
    Exact (tablesAfter calls) (registryAfter calls) := by
  obtain ⟨hok, htab⟩ := run_tables calls h
  rw [← htab]
  exact hok.exact

theorem tables_exact_on_off :
    (tablesAfter [.on [97] 0, .on [97] 1, .off 1]).dispatch [97] = [1] := by
  rw [(tables_exact [.on [97] 0, .on [97] 1, .off 1] (by decide)).dispatch]
  decide

def wrappedCalls (k : Nat) : List (ListenerCall Unit) :=
  .on [97] () :: (replicate k [.on [98] (), .offAll [98]]).flatten ++ [.on [98] ()]

theorem registry_rounds (n k : Nat) :
    (replicate k [ListenerCall.on [98] (), .offAll [98]]).flatten.foldl Registry.call ⟨n, [⟨0, [97], ()⟩]⟩ =
      ⟨n + k, [⟨0, [97], ()⟩]⟩ := by
  induction k generalizing n with
  | zero => rfl
  | succ k ih =>
    rw [replicate_succ, flatten_cons, foldl_append]
    have hrnd : [ListenerCall.on [98] (), .offAll [98]].foldl Registry.call ⟨n, [⟨0, [97], ()⟩]⟩ =
        ⟨n + 1, [⟨0, [97], ()⟩]⟩ := rfl
    rw [hrnd, ih, add_right_comm, add_assoc]

theorem countP_rounds (k : Nat) :
    ((replicate k [ListenerCall.on [98] (), .offAll [98]]).flatten.countP ListenerCall.isOn) = k := by
  induction k with
  | zero => rfl
  | succ k ih =>
    rw [replicate_succ, flatten_cons, countP_append, ih]
    exact add_comm 1 k

theorem tables_wrapped {k : Nat} (hk : 1 + k = 2 ^ 32) :
    (tablesAfter (wrappedCalls k)).tokenToEvent 1 = some [98] ∧
      (tablesAfter (wrappedCalls k)).eventCallbacks [97] = some [⟨1, ()⟩] := by
  have hfir : registryAfter (.on [97] () :: (replicate k [.on [98] (), .offAll [98]]).flatten) =
      ⟨1 + k, [⟨0, [97], ()⟩]⟩ := registry_rounds 1 k
  have htab := (run_tables (.on [97] () :: (replicate k [.on [98] (), .offAll [98]]).flatten)
    (by rw [countP_cons, countP_rounds, ← hk]; exact le_of_eq (add_comm k 1))).2
  have hone : int32 ((0 : Nat) + 1) = 1 := by decide
  have hwrap : int32 ((1 + k : Nat) + 1) = 1 := by
    rw [hk]
    decide
  have hlast : tablesAfter (wrappedCalls k) = ((⟨1 + k, [⟨0, [97], ()⟩]⟩ : Registry Unit).tables.on [98] ()).1 := by
    rw [← hfir, htab, wrappedCalls, tablesAfter, foldl_append]
    rfl
  rw [hlast, EventTables.on_fst rfl]
  constructor
  · dsimp only
    rw [Registry.next_tables, hwrap, update_self]
  · dsimp only
    rw [Registry.eventCallbacks_tables, ← hone]
    rfl

theorem tables_disagree : ¬ Exact (tablesAfter (wrappedCalls 4294967295)) (registryAfter (wrappedCalls 4294967295)) := by
  intro h
  obtain ⟨htok, hvec⟩ := tables_wrapped (k := 4294967295) rfl
  have hsome := (h.relation 1 [97]).2 ⟨_, hvec, ⟨1, ()⟩, by simp, rfl⟩
  rw [htok] at hsome
  exact absurd hsome (by decide)

end Run

end CloudeLoader.Cdp
