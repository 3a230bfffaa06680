import LanguageClient.Proofs.Json.Record
import LanguageClient.Proofs.Link.Replies

namespace LanguageClient

open Incoming (refusalOf)

/-- What a value is as a message, said of its fields. Requests are told from answers by the method,
for the ids of both sides are drawn from the same numbers. -/
inductive Json.Bears (v : Json) : Option Incoming → Prop
  | request {id : Json} {method : String} (hid : v.get? "id" = some id) (real : id ≠ .null)
      (hmethod : v.get? "method" = some (.str method)) :
      Bears v (some (.request id method (v.get? "params")))
  | notification {method : String} (hid : v.get? "id" = none ∨ v.get? "id" = some .null)
      (hmethod : v.get? "method" = some (.str method)) :
      Bears v (some (.notification method (v.get? "params")))
  | refused {id : UInt64} {error : Json} (hid : v.get? "id" = some (.nat id.toNat))
      (hmethod : ∀ m, v.get? "method" ≠ some (.str m)) (herror : v.get? "error" = some error)
      (real : error ≠ .null) :
      Bears v (some (.answer id (.error (refusalOf error))))
  | answered {id : UInt64} (hid : v.get? "id" = some (.nat id.toNat))
      (hmethod : ∀ m, v.get? "method" ≠ some (.str m))
      (herror : v.get? "error" = none ∨ v.get? "error" = some .null) :
      Bears v (some (.answer id (.ok ((v.get? "result").getD .null))))
  /-- Among these is whatever is no object. -/
  | nothing (hid : ∀ id : UInt64, v.get? "id" ≠ some (.nat id.toNat))
      (hmethod : ∀ m, v.get? "method" ≠ some (.str m)) : Bears v none

namespace Json

section Reading

variable {v : Json}

/-- An id that is `null` counts as none. -/
def realId? (v : Json) : Option Json :=
  (v.get? "id").filter (!·.isNull)

def method? (v : Json) : Option String :=
  (v.get? "method").bind str?

theorem realId?_eq_some {id : Json} : v.realId? = some id ↔ v.get? "id" = some id ∧ id ≠ .null := by
  simp [realId?, Option.filter_eq_some_iff, ← isNull_iff]

theorem realId?_eq_none : v.realId? = none ↔ v.get? "id" = none ∨ v.get? "id" = some .null := by
  cases hid : v.get? "id" with
  | none => simp [realId?, hid]
  | some id => simp [realId?, hid, Option.filter, isNull_iff]

theorem method?_eq_some {m : String} : v.method? = some m ↔ v.get? "method" = some (.str m) := by
  simp [method?, Option.bind_eq_some_iff, str?_eq_some]

theorem method?_eq_none : v.method? = none ↔ ∀ m, v.get? "method" ≠ some (.str m) := by
  simp only [Option.eq_none_iff_forall_ne_some, ne_eq, method?_eq_some]

/-- How the reader tells messages apart, said of any value. -/
theorem ofJson?_eq (v : Json) :
    Incoming.ofJson? v =
      match v.realId?, v.method? with
      | some id, some method => some (.request id method (v.get? "params"))
      | none, some method => some (.notification method (v.get? "params"))
      | some id, none =>
        id.word?.map fun n => .answer n <|
          match v.get? "error" with
          | some e => if e.isNull then .ok ((v.get? "result").getD .null) else .error (refusalOf e)
          | none => .ok ((v.get? "result").getD .null)
      | none, none => none := by
  cases v with
  | obj fields => rfl
  | null | bool | int | float | str | arr => rfl

end Reading

theorem Bears.ofJson? {v : Json} {i? : Option Incoming} (h : v.Bears i?) :
    Incoming.ofJson? v = i? := by
  rw [ofJson?_eq]
  cases h with
  | request hid real hmethod =>
    simp only [realId?_eq_some.mpr ⟨hid, real⟩, method?_eq_some.mpr hmethod]
  | notification hid hmethod =>
    simp only [realId?_eq_none.mpr hid, method?_eq_some.mpr hmethod]
  | @refused id error hid hmethod herror real =>
    have hnull : error.isNull = false := by simpa [← isNull_iff] using real
    simp only [realId?_eq_some.mpr ⟨hid, nofun⟩, method?_eq_none.mpr hmethod, word?_nat, herror,
      hnull, Option.map_some, Bool.false_eq_true, if_false]
  | @answered id hid hmethod herror =>
    simp only [realId?_eq_some.mpr ⟨hid, nofun⟩, method?_eq_none.mpr hmethod, word?_nat,
      Option.map_some]
    obtain herror | herror := herror <;> simp [herror, isNull]
  | nothing hid hmethod =>
    rw [method?_eq_none.mpr hmethod]
    cases hreal : v.realId? with
    | none => rfl
    | some id =>
      -- an id that is no word answers nothing
      have hword : id.word? = none := by
        refine Option.eq_none_iff_forall_ne_some.mpr fun n hn => ?_
        rw [word?_eq_some] at hn
        exact hid n (hn ▸ (realId?_eq_some.mp hreal).1)
      simp [hword]

/-- Every value is something as a message, if only nothing. -/
theorem exists_bears (v : Json) : ∃ i?, v.Bears i? := by
  cases hmethod : v.method? with
  | some method =>
    cases hid : v.realId? with
    | some id =>
      obtain ⟨hid, real⟩ := realId?_eq_some.mp hid
      exact ⟨_, .request hid real (method?_eq_some.mp hmethod)⟩
    | none => exact ⟨_, .notification (realId?_eq_none.mp hid) (method?_eq_some.mp hmethod)⟩
  | none =>
    have hmethod := method?_eq_none.mp hmethod
    by_cases hid : ∃ id : UInt64, v.get? "id" = some (.nat id.toNat)
    · obtain ⟨id, hid⟩ := hid
      by_cases herror : v.get? "error" = none ∨ v.get? "error" = some .null
      · exact ⟨_, .answered hid hmethod herror⟩
      · rw [not_or] at herror
        obtain ⟨error, he⟩ := Option.ne_none_iff_exists'.mp herror.1
        exact ⟨_, .refused hid hmethod he fun hnull => herror.2 (hnull ▸ he)⟩
    · exact ⟨_, .nothing (not_exists.mp hid) hmethod⟩

end Json

namespace Link

/-- These are the items that a request for settings lists; what is no array lists none. -/
def Lists (params : Option Json) (items : List Json) : Prop :=
  params.bind (·.get? "items") = some (.arr items) ∨
    items = [] ∧ ∀ xs, params.bind (·.get? "items") ≠ some (.arr xs)

/-- The requests that are granted, whatever they ask for, and the results. -/
def granted : List (String × Json) :=
  [("client/registerCapability", .null), ("client/unregisterCapability", .null),
    ("window/workDoneProgress/create", .null),
    ("workspace/applyEdit", .ofFields [("applied", .bool false)])]

def settingsMethod : String := "workspace/configuration"

/-- A reply that settles a request: it bears the id of the request, and either a result or an
error. -/
structure Settles (id : Json) (method : String) (params : Option Json) (reply : Json) : Prop where
  version : reply.get? "jsonrpc" = some (.str "2.0")
  id : reply.get? "id" = some id
  unasked : reply.get? "method" = none
  either : (reply.get? "result").isSome ≠ (reply.get? "error").isSome
  /-- For every item that it lists, a request for settings gets a `null`. -/
  settings : method = settingsMethod → ∀ items, Lists params items →
    reply.get? "result" = some (.arr (List.replicate items.length .null))
  grants : ∀ result, (method, result) ∈ granted → reply.get? "result" = some result
  unknown : method ≠ settingsMethod → method ∉ granted.map (·.1) → ∃ error,
    reply.get? "error" = some error ∧ error.get? "code" = some (.int (-32601)) ∧
      error.get? "message" = some (.str s!"Method not found: {method}")

theorem Lists.length {params : Option Json} {items : List Json} (h : Lists params items) :
    askedItems params = items.length := by
  unfold askedItems
  obtain h | ⟨rfl, h⟩ := h
  · simp [h, Json.arr?]
  · cases hv : params.bind (·.get? "items") with
    | none => rfl
    | some v =>
      cases v with
      | arr xs => exact absurd hv (h xs)
      | null | bool | int | float | str | obj => rfl

section Replies

variable (id result : Json)

@[simp] theorem get?_answer (k : String) :
    (Message.answer id result).get? k =
      if "result" = k then some result
      else if "id" = k then some id
      else if "jsonrpc" = k then some (.str "2.0") else none := by
  simp [Message.answer, Message.withParams, Table.ofEntries]

@[simp] theorem get?_refusal (k : String) (r : Refusal) :
    (Message.refusal id r).get? k =
      if "error" = k then
        some (.ofFields [("code", .int r.code), ("message", .str r.message)])
      else if "id" = k then some id
      else if "jsonrpc" = k then some (.str "2.0") else none := by
  simp [Message.refusal, Message.withParams, Table.ofEntries]

theorem settles_answer {method : String} {params : Option Json}
    (hsettings : method = settingsMethod → ∀ items, Lists params items →
      result = .arr (List.replicate items.length .null))
    (hgrants : ∀ r, (method, r) ∈ granted → result = r)
    (hknown : method = settingsMethod ∨ method ∈ granted.map (·.1)) :
    Settles id method params (Message.answer id result) := by
  constructor
  case settings =>
    intro hm items hitems
    simp [hsettings hm items hitems]
  case grants =>
    intro r hr
    simp [hgrants r hr]
  case unknown =>
    intro hsettings hgranted
    exact absurd hknown (not_or.mpr ⟨hsettings, hgranted⟩)
  all_goals simp

end Replies

theorem settles_replyTo (id : Json) (method : String) (params : Option Json) :
    Settles id method params (replyTo id method params) := by
  unfold replyTo
  split
  case h_1 =>
    refine settles_answer id _ (fun _ items hitems => by rw [hitems.length]) ?_ (.inl rfl)
    simp [granted]
  case h_6 hconfiguration hregister hunregister hcreate hedit =>
    have hgranted : method ∉ granted.map (·.1) := by simp_all [granted]
    constructor
    case settings => exact fun hm => absurd hm hconfiguration
    case grants => exact fun r hr => absurd (List.mem_map_of_mem hr) hgranted
    case unknown => simp [Table.ofEntries]
    all_goals simp
  all_goals
    refine settles_answer id _ (by simp [settingsMethod]) ?_ (.inr (by simp [granted]))
    simp [granted]

def answered (l : Link) (c : Call) (outcome : Outcome) : Link :=
  { l with inflight := { l.inflight with
      owed := l.inflight.owed.filter (·.id != c.id)
      slots := l.inflight.slots.set c.ticket
        (.filled (outcomeReply l.language c.method outcome)) } }

/-- What a message does to a link, by what it is; `waits` gives the calls whose callers wait. -/
inductive Effect (l : Link) (waits : Nat → Option Call) :
    Option Incoming → Link × Option Publication → Prop
  | reply {id : Json} {method : String} {params : Option Json} {v : Json}
      (settles : Settles id method params v) :
      Effect l waits (some (.request id method params))
        ({ l with sent := l.sent ++ [.frame v] }, none)
  | publish {params : Option Json} :
      Effect l waits (some (.notification publicationMethod params))
        (l, params.bind Publication.ofJson?)
  | overhear {method : String} {params : Option Json} (other : method ≠ publicationMethod) :
      Effect l waits (some (.notification method params)) (l, none)
  /-- One caller waits for this answer, and no entry but its own bears the id. -/
  | answer {n : Nat} {c : Call} {outcome : Outcome} (waiting : waits n = some c)
      (empty : l.inflight.slot c.ticket = .empty)
      (only : ∀ o ∈ l.inflight.owed, o.id = c.id ↔ o = c.owed) :
      Effect l waits (some (.answer c.id outcome)) (l.answered c outcome, none)
  | stray {id : UInt64} {outcome : Outcome} (unowed : ∀ o ∈ l.inflight.owed, o.id ≠ id) :
      Effect l waits (some (.answer id outcome)) (l, none)
  | ignore : Effect l waits none (l, none)

theorem complete_of_owed {l : Link} {waits : Nat → Option Call} (h : l.inflight.Fits waits)
    {c : Call} (howed : c.owed ∈ l.inflight.owed) (outcome : Outcome) :
    { l with inflight := (l.inflight.complete c.id outcome).2 } = l.answered c outcome := by
  have hfound : l.inflight.find? c.id = some c.owed := Inflight.find?_of_mem h.distinct howed
  have hreply : l.inflight.replyOf c.owed outcome = outcomeReply l.language c.method outcome := by
    cases outcome <;> rfl
  have hempty : { l.inflight with owed := l.inflight.owed.filter (·.id != c.id) }.slot
      c.owed.ticket = .empty := h.empty howed
  rw [answered, ← hreply]
  simp only [Inflight.complete, hfound, Inflight.fill, hempty, Slot.isEmpty, if_true,
    Inflight.setSlot]
  rfl

/-- Whatever comes on a link whose table fits has its effect, as long as the writer goes on. -/
theorem effect_route {l : Link} {waits : Nat → Option Call} (h : l.inflight.Fits waits)
    (hwriting : l.writing = true) (v : Json) : l.Effect waits (Incoming.ofJson? v) (l.route v) := by
  unfold route
  split
  case h_1 hv =>
    rw [hv]
    exact .ignore
  case h_2 id outcome hv =>
    rw [hv]
    cases hfind : l.inflight.find? id with
    | none =>
      rw [Inflight.complete_of_find?_eq_none _ id hfind]
      exact .stray (Inflight.find?_eq_none.mp hfind)
    | some o =>
      obtain ⟨ho, rfl⟩ := Inflight.mem_of_find? hfind
      obtain ⟨n, c, hc, rfl⟩ := h.waited ho
      have hcomplete := complete_of_owed h ho outcome
      simp only [Call.owed] at hcomplete ⊢
      rw [hcomplete]
      refine .answer hc (h.empty ho) fun o' ho' => ⟨fun hid => ?_, fun heq => heq ▸ rfl⟩
      exact List.inj_on_of_nodup_map h.distinct ho' ho hid
  case h_3 id method params hv =>
    rw [hv, queue, if_pos hwriting]
    exact .reply (settles_replyTo id method params)
  case h_4 method params hv =>
    rw [hv]
    split
    · rename_i hmethod
      rw [hmethod]
      exact .publish
    · rename_i hmethod
      exact .overhear hmethod

end Link

namespace Conversation

/-- On a link that is open, every message has exactly one effect, and its fields say which: a
request gets its one reply and leaves the table alone, even if it bears an id of this side; an
answer reaches the one caller that waits for it, if there is any; nothing else has an effect on the
link. What is left of the input plays no part. -/
theorem messages_have_one_effect (language : String) (es : List Event)
    (hopen : (run language es).link.closing? = none) (rest : Bytes) (v : Json) :
    ∃ i?, v.Bears i? ∧ (∀ j?, v.Bears j? → j? = i?) ∧
      { (run language es).link with input := rest }.Effect (run language es).call? i?
        ({ (run language es).link with input := rest }.route v) := by
  obtain ⟨i?, hi⟩ := v.exists_bears
  refine ⟨i?, hi, fun j? hj => hj.ofJson?.symm.trans hi.ofJson?, ?_⟩
  have hfits : { (run language es).link with input := rest }.inflight.Fits
      (run language es).call? := fits_run language es
  have hwriting : (run language es).link.writing = true :=
    ((faithful_run language es).writing hopen).1
  rw [← hi.ofJson?]
  exact Link.effect_route hfits hwriting v

/-- A request of the server under the id of a call that waits. -/
theorem messages_have_one_effect_namesake :
    (run "rust" [.call 1000 "initialize" none]).link.closing? = none ∧
      ∃ i?, (Message.request 1 "workspace/configuration" none).Bears i? ∧
        (∀ j?, (Message.request 1 "workspace/configuration" none).Bears j? → j? = i?) ∧
        { (run "rust" [.call 1000 "initialize" none]).link with input := [] }.Effect
          (run "rust" [.call 1000 "initialize" none]).call? i?
          ({ (run "rust" [.call 1000 "initialize" none]).link with input := [] }.route
            (Message.request 1 "workspace/configuration" none)) :=
  ⟨rfl, messages_have_one_effect "rust" [.call 1000 "initialize" none] rfl [] _⟩

end Conversation
end LanguageClient
