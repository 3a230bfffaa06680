import LanguageClient.Proofs.Documents.Lines
import LanguageClient.Proofs.Link.Operations
import LanguageClient.Query
import Mathlib.Data.List.Basic
import Mathlib.Logic.Function.Basic

namespace LanguageClient

theorem Json.uint32?_nat (n : UInt32) : (nat n.toNat).uint32? = some n := by
  have h : 0 ≤ (n.toNat : Int) ∧ (n.toNat : Int) < (UInt32.size : Int) :=
    ⟨Int.natCast_nonneg _, Int.ofNat_lt.mpr n.toNat_lt_size⟩
  unfold uint32?
  rw [int?_nat, Option.bind_eq_bind, Option.bind_some, if_pos h, Int.toNat_natCast,
    UInt32.ofNat_toNat]

theorem Json.required_named {α : Type} {fields : List (String × Json)} {key : String} {v : Json}
    (h : Table.get? key fields = some v) (place : Nat) (decode : Json → Option α) :
    (Source.named fields).required place key decode = decode v := by
  show (Table.get? key fields).bind decode = decode v
  rw [h, Option.bind_some]

theorem Json.record?_obj {α : Type} (size : Nat) (read : Source → Option α)
    (fields : List (String × Json)) : record? size read (.obj fields) = read (.named fields) :=
  rfl

theorem Position.ofJson?_json (p : Position) : ofJson? p.json = some p := by
  have hline : Table.get? "line" (Table.ofEntries
      [("line", Json.nat p.line.toNat), ("character", Json.nat p.character.toNat)]) =
      some (.nat p.line.toNat) := by simp [Table.ofEntries]
  have hcharacter : Table.get? "character" (Table.ofEntries
      [("line", Json.nat p.line.toNat), ("character", Json.nat p.character.toNat)]) =
      some (.nat p.character.toNat) := by simp [Table.ofEntries]
  unfold ofJson? json Json.ofFields
  rw [Json.record?_obj, Json.required_named hline, Json.required_named hcharacter,
    Json.uint32?_nat, Json.uint32?_nat]
  rfl

/-- What a message says about a document. -/
inductive Mention where
  | opened (uri : String) (version : Int) (text : String)
  | changed (uri : String) (version : Int) (text : String)
  | closed (uri : String)
  | asked (method uri : String) (at_ : Option Position)

namespace Mention

def field? (params : Option Json) (key : String) : Option Json :=
  (params.bind (·.get? "textDocument")).bind (·.get? key)

def uriOf (params : Option Json) : String :=
  ((field? params "uri").bind Json.str?).getD ""

def versionOf (params : Option Json) : Int :=
  ((field? params "version").bind Json.int?).getD 0

def textOf (params : Option Json) : String :=
  ((field? params "text").bind Json.str?).getD ""

/-- The text of the one change, which replaces all of the document. -/
def newTextOf (params : Option Json) : String :=
  match (params.bind (·.get? "contentChanges")).bind Json.arr? with
  | some [change] => ((change.get? "text").bind Json.str?).getD ""
  | _ => ""

def placeOf (params : Option Json) : Option Position :=
  (params.bind (·.get? "position")).bind Position.ofJson?

def isAboutDocument (method : String) : Bool :=
  "textDocument/".toList.isPrefixOf method.toList

/-- The requests that are about a place in a document. -/
def placed : List String :=
  ["textDocument/hover", "textDocument/definition", "textDocument/references",
    "textDocument/rename", "textDocument/completion"]

/-- What is missing or of another kind counts as empty, and nothing is passed over. -/
def ofIncoming? : Incoming → Option Mention
  | .notification "textDocument/didOpen" params =>
    some (opened (uriOf params) (versionOf params) (textOf params))
  | .notification "textDocument/didChange" params =>
    some (changed (uriOf params) (versionOf params) (newTextOf params))
  | .notification "textDocument/didClose" params => some (closed (uriOf params))
  | .request _ method params =>
    if isAboutDocument method then some (asked method (uriOf params) (placeOf params)) else none
  | .notification _ _ | .answer _ _ => none

end Mention

namespace Outgoing

def mention? : Outgoing → Option Mention
  | frame v => (Incoming.ofJson? v).bind Mention.ofIncoming?
  | finish => none

theorem mention?_notification (method : String) (params : Option Json) :
    (frame (Message.notification method params)).mention? =
      Mention.ofIncoming? (.notification method params) := by
  show (Incoming.ofJson? _).bind _ = _
  rw [Incoming.ofJson?_notification, Option.bind_some]

theorem mention?_request (id : UInt64) (method : String) (params : Option Json) :
    (frame (Message.request id method params)).mention? =
      if Mention.isAboutDocument method then
        some (.asked method (Mention.uriOf params) (Mention.placeOf params))
      else none := by
  show (Incoming.ofJson? _).bind _ = _
  rw [Incoming.ofJson?_request, Option.bind_some]
  rfl

theorem mention?_opened (uri languageId text : String) (version : Int32) :
    (frame (Message.notification "textDocument/didOpen"
      (some (Params.opened uri languageId version text)))).mention? =
      some (.opened uri version.toInt text) := by
  rw [mention?_notification]
  simp [Mention.ofIncoming?, Mention.uriOf, Mention.versionOf, Mention.textOf, Mention.field?,
    Params.opened, Params.object, Table.ofEntries]

theorem mention?_changed (uri text : String) (version : Int32) :
    (frame (Message.notification "textDocument/didChange"
      (some (Params.changed uri version text)))).mention? =
      some (.changed uri version.toInt text) := by
  rw [mention?_notification]
  simp [Mention.ofIncoming?, Mention.uriOf, Mention.versionOf, Mention.newTextOf, Mention.field?,
    Params.changed, Params.object, Table.ofEntries, Json.arr?]

theorem mention?_closed (uri : String) :
    (frame (Message.notification "textDocument/didClose" (some (Params.document uri)))).mention? =
      some (.closed uri) := by
  rw [mention?_notification]
  simp [Mention.ofIncoming?, Mention.uriOf, Mention.field?, Params.document, Params.object,
    Table.ofEntries]

end Outgoing

namespace Query

theorem isAboutDocument_method (q : Query) : Mention.isAboutDocument q.method = true := by
  have hall : ∀ method ∈ "textDocument/documentSymbol" :: Mention.placed,
      Mention.isAboutDocument method = true := by decide
  exact hall q.method (by cases q <;> simp [method, Mention.placed])

theorem uriOf_params (q : Query) (uri : String) :
    Mention.uriOf (some (q.params uri)) = uri := by
  cases q <;>
    simp [params, Params.document, Params.position, Params.references, Params.rename,
      Params.completion, Params.placed, Params.object, Mention.uriOf, Mention.field?,
      Table.ofEntries]

theorem placeOf_of_position {params : Json} {p : Position}
    (h : params.get? "position" = some p.json) : Mention.placeOf (some params) = some p := by
  show (params.get? "position").bind Position.ofJson? = some p
  rw [h, Option.bind_some, Position.ofJson?_json]

theorem placeOf_params (q : Query) (uri : String) :
    Mention.placeOf (some (q.params uri)) = q.position? := by
  cases q with
  | symbols => simp [params, Params.document, Params.object, Mention.placeOf, position?,
      Table.ofEntries]
  | hover p | definition p | references p _ | rename p _ | completion p =>
    refine placeOf_of_position ?_
    simp [params, Params.position, Params.references, Params.rename, Params.completion,
      Params.placed, Params.object, Table.ofEntries]

theorem position?_of_placed {q : Query} (h : q.method ∈ Mention.placed) :
    ∃ p, q.position? = some p := by
  cases q with
  | symbols => exact absurd h (by decide)
  | hover p | definition p | references p _ | rename p _ | completion p => exact ⟨p, rfl⟩

end Query

/-- The documents that the other side has open: by URI, the number of contents that it has got since
the opening, and the last of them. -/
abbrev Replica := String → Option (Nat × String)

namespace Replica

def learn (r : Replica) : Mention → Replica
  | .opened uri _ text => Function.update r uri (some (1, text))
  | .changed uri _ text => Function.update r uri ((r uri).map fun d => (d.1 + 1, text))
  | .closed uri => Function.update r uri none
  | .asked _ _ _ => r

def receive (r : Replica) (o : Outgoing) : Replica :=
  match o.mention? with
  | some m => r.learn m
  | none => r

/-- What the other side has after all these messages. -/
def ofSent (sent : List Outgoing) : Replica :=
  sent.foldl receive fun _ => none

theorem ofSent_append_one (sent : List Outgoing) (o : Outgoing) :
    ofSent (sent ++ [o]) = (ofSent sent).receive o := by
  simp [ofSent]

theorem ofSent_append_silent (sent : List Outgoing) {os : List Outgoing}
    (h : ∀ o ∈ os, o.mention? = none) : ofSent (sent ++ os) = ofSent sent := by
  induction os generalizing sent with
  | nil => rw [List.append_nil]
  | cons o os ih =>
    have hhead : (ofSent sent).receive o = ofSent sent := by
      unfold receive
      rw [h o List.mem_cons_self]
    rw [List.append_cons, ih _ fun o' ho' => h o' (List.mem_cons_of_mem _ ho'),
      ofSent_append_one, hhead]

end Replica

/-- A message that the other side can make sense of: only what is not open is opened, only what is
open is changed, closed and asked about, versions are counted, and places lie in the text. -/
def Mention.Proper (r : Replica) : Mention → Prop
  | .opened uri version _ => r uri = none ∧ version = 1
  | .changed uri version _ =>
    ∃ n text, r uri = some (n, text) ∧ version = (Int32.ofNat (n + 1)).toInt
  | .closed uri => ∃ d, r uri = some d
  | .asked method uri at_ =>
    ∃ n text, r uri = some (n, text) ∧ (method ∈ placed → ∃ p, at_ = some p ∧ p.Inside text)

/-- Every message makes sense when it is sent. -/
def Orderly (sent : List Outgoing) : Prop :=
  ∀ front o back m, sent = front ++ o :: back → o.mention? = some m →
    m.Proper (Replica.ofSent front)

namespace Orderly

variable {sent : List Outgoing}

theorem nil : Orderly [] := by
  intro front o back m h
  simp at h

theorem append_one (h : Orderly sent) {o : Outgoing}
    (ho : ∀ m, o.mention? = some m → m.Proper (Replica.ofSent sent)) : Orderly (sent ++ [o]) := by
  intro front o' back m heq hm
  -- the message is the last one, or stands before it
  obtain rfl | ⟨back, last, rfl⟩ := List.eq_nil_or_concat back
  · obtain ⟨rfl, hlast⟩ := List.append_inj' heq rfl
    cases hlast
    exact ho m hm
  · have heq : sent ++ [o] = (front ++ o' :: back) ++ [last] := by simpa using heq
    obtain ⟨hsent, -⟩ := List.append_inj' heq rfl
    exact h front o' back m hsent hm

theorem append_silent (h : Orderly sent) {os : List Outgoing} (hos : ∀ o ∈ os, o.mention? = none) :
    Orderly (sent ++ os) := by
  induction os generalizing sent with
  | nil => rwa [List.append_nil]
  | cons o os ih =>
    rw [List.append_cons]
    refine ih (h.append_one fun m hm => ?_) fun o' ho' => hos o' (List.mem_cons_of_mem _ ho')
    rw [hos o List.mem_cons_self] at hm
    cases hm

end Orderly

end LanguageClient
