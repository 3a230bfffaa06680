import LanguageClient.Proofs.Link.Closing
import LanguageClient.Proofs.Session.Events

namespace LanguageClient

theorem modify_congr {α : Type} {xs : List α} {c : Nat} {f g : α → α}
    (h : ∀ x, xs[c]? = some x → f x = g x) : xs.modify c f = xs.modify c g := by
  apply List.ext_getElem?
  intro j
  rw [List.getElem?_modify, List.getElem?_modify]
  by_cases hj : c = j
  · subst hj
    cases hx : xs[c]? with
    | none => rfl
    | some x => simp [h x hx]
  · simp [hj]

/-- Between two lists only the entry of this number differs, and that as `R` allows. -/
structure ChangedAt {α : Type} (R : α → α → Prop) (c : Nat) (xs ys : List α) : Prop where
  length : ys.length = xs.length
  others : ∀ j, j ≠ c → ys[j]? = xs[j]?
  this : ∀ x, xs[c]? = some x → ∃ y, ys[c]? = some y ∧ R x y

namespace ChangedAt

variable {α : Type} {R : α → α → Prop} {c : Nat} {xs ys zs : List α}

theorem refl (hR : ∀ x, R x x) (c : Nat) (xs : List α) : ChangedAt R c xs xs :=
  ⟨rfl, fun _ _ => rfl, fun x hx => ⟨x, hx, hR x⟩⟩

theorem trans (hR : ∀ {x y z}, R x y → R y z → R x z) (h : ChangedAt R c xs ys)
    (h' : ChangedAt R c ys zs) : ChangedAt R c xs zs := by
  constructor
  case length => rw [h'.length, h.length]
  case others =>
    intro j hj
    rw [h'.others j hj, h.others j hj]
  case this =>
    intro x hx
    obtain ⟨y, hy, hxy⟩ := h.this x hx
    obtain ⟨z, hz, hyz⟩ := h'.this y hy
    exact ⟨z, hz, hR hxy hyz⟩

theorem modify {f : α → α} (hf : ∀ x, xs[c]? = some x → R x (f x)) :
    ChangedAt R c xs (xs.modify c f) := by
  constructor
  case length => simp
  case others =>
    intro j hj
    simp [Ne.symm hj]
  case this =>
    intro x hx
    exact ⟨f x, by simp [hx], hf x hx⟩

theorem modified {S : α → α → Prop} {f : α → α} (h : ChangedAt R c xs ys)
    (hf : ∀ {x y}, R x y → S x (f y)) : ChangedAt S c xs (ys.modify c f) := by
  constructor
  case length => rw [List.length_modify, h.length]
  case others =>
    intro j hj
    rw [← h.others j hj]
    simp [Ne.symm hj]
  case this =>
    intro x hx
    obtain ⟨y, hy, hR⟩ := h.this x hx
    exact ⟨f y, by simp [hy], hf hR⟩

theorem of_some (h : ChangedAt R c xs ys) {j : Nat} {y : α} (hy : ys[j]? = some y) :
    (j ≠ c ∧ xs[j]? = some y) ∨ j = c ∧ ∃ x, xs[j]? = some x ∧ R x y := by
  by_cases hj : j = c
  · subst hj
    have hlt : j < xs.length := h.length ▸ (List.getElem?_eq_some_iff.mp hy).1
    obtain ⟨y', hy', hR⟩ := h.this _ (List.getElem?_eq_getElem hlt)
    rw [hy] at hy'
    cases hy'
    exact .inr ⟨rfl, _, List.getElem?_eq_getElem hlt, hR⟩
  · exact .inl ⟨hj, h.others j hj ▸ hy⟩

end ChangedAt

namespace Link

/-- From one link to the other, messages may have been queued; neither the reader nor the writer has
come on. -/
structure Used (l l' : Link) : Prop where
  closing : l'.closing? = l.closing?
  language : l'.language = l.language
  writing : l'.writing = l.writing
  written : l'.written = l.written
  reading : l'.reading = l.reading
  lost : l'.lost = l.lost
  sent : ∃ vs : List Json, l'.sent = l.sent ++ vs.map .frame

variable {l l' l'' : Link}

theorem Used.refl (l : Link) : l.Used l :=
  ⟨rfl, rfl, rfl, rfl, rfl, rfl, [], by simp⟩

theorem Used.trans (h : l.Used l') (h' : l'.Used l'') : l.Used l'' := by
  obtain ⟨vs, hvs⟩ := h.sent
  obtain ⟨ws, hws⟩ := h'.sent
  exact ⟨h'.closing.trans h.closing, h'.language.trans h.language, h'.writing.trans h.writing,
    h'.written.trans h.written, h'.reading.trans h.reading, h'.lost.trans h.lost,
    vs ++ ws, by rw [hws, hvs, List.map_append, List.append_assoc]⟩

variable (l)

theorem used_notify (method : String) (params : Option Json) :
    l.Used (l.notify method params).2 := by
  refine ⟨by simp, by simp, by simp, by rw [notify_snd], by simp, by simp, ?_⟩
  obtain hs | hs := l.sent_notify_cases method params
  · exact ⟨[_], hs⟩
  · exact ⟨[], by simp [hs]⟩

theorem used_call (now timeout : Nat) (method : String) (params : Option Json) :
    l.Used (l.call now timeout method params).2 := by
  refine ⟨by simp, by simp, by simp, ?_, by simp, by simp, ?_⟩
  · obtain ⟨reason, h⟩ | h | ⟨hc, hw⟩ := l.call_cases
    · rw [l.call_of_closed now timeout method params h]
    · rw [l.call_of_takes now timeout method params h]
    · rw [l.call_of_not_writing now timeout method params hc hw]
  · rw [sent_call]
    split
    · exact ⟨[_], rfl⟩
    · exact ⟨[], by simp⟩

theorem used_abandon (c : Call) : l.Used (l.abandon c) :=
  ⟨by simp, by simp, rfl, rfl, rfl, rfl, [], by simp⟩

theorem used_poll (now : Nat) (c : Call) : l.Used (l.poll now c).2 := by
  cases hs : l.inflight.slot c.ticket with
  | filled r =>
    rw [poll_of_filled hs]
    exact ⟨by simp [closing?], by simp [Link.language], rfl, rfl, rfl, rfl, [], by simp⟩
  | spent =>
    rw [poll_of_spent hs]
    exact l.used_abandon c
  | deserted =>
    rw [poll_of_deserted hs]
    exact .refl l
  | empty =>
    by_cases ht : now < c.deadline
    · rw [poll_of_early hs ht]
      exact .refl l
    · rw [poll_of_late hs (Nat.le_of_not_lt ht)]
      exact (l.used_abandon c).trans ((l.abandon c).used_notify _ _)

theorem poll_of_none {now : Nat} {c : Call} (h : (l.poll now c).1 = none) :
    (l.poll now c).2 = l := by
  cases hs : l.inflight.slot c.ticket with
  | filled r =>
    rw [poll_of_filled hs] at h
    cases h
  | spent =>
    rw [poll_of_spent hs] at h
    cases h
  | deserted => rw [poll_of_deserted hs]
  | empty =>
    by_cases ht : now < c.deadline
    · rw [poll_of_early hs ht]
    · rw [poll_of_late hs (Nat.le_of_not_lt ht)] at h
      cases h

end Link

namespace Session

/-- The connection is used, and its documents may change. -/
structure Connection.Used (k k' : Connection) : Prop where
  link : k.link.Used k'.link
  process : k'.process = k.process
  abilities : k'.abilities = k.abilities
  established : k'.established = k.established
  killed : k'.killed = k.killed
  released : k'.released = k.released

theorem Connection.Used.refl (k : Connection) : k.Used k :=
  ⟨.refl _, rfl, rfl, rfl, rfl, rfl⟩

theorem Connection.Used.trans {k k' k'' : Connection} (h : k.Used k') (h' : k'.Used k'') :
    k.Used k'' :=
  ⟨h.link.trans h'.link, h'.process.trans h.process, h'.abilities.trans h.abilities,
    h'.established.trans h.established, h'.killed.trans h.killed, h'.released.trans h.released⟩

theorem Connection.Used.of_link {k : Connection} {l : Link} (h : k.link.Used l) :
    k.Used { k with link := l } :=
  ⟨h, rfl, rfl, rfl, rfl, rfl⟩

/-- An operation at this stage is being served by the connection, or has come to its end. -/
def Stage.IsServedBy (c : Nat) : Stage → Prop
  | .reading c' _ | .asking c' _ => c' = c
  | .done _ => True
  | _ => False

/-- The operation stays where it is, or is served. -/
structure Task.Served (c : Nat) (t t' : Task) : Prop where
  work : t'.work = t.work
  stage : t'.stage = t.stage ∨ t'.stage.IsServedBy c

theorem Task.Served.refl (c : Nat) (t : Task) : t.Served c t :=
  ⟨rfl, .inl rfl⟩

theorem Task.Served.trans {c : Nat} {t t' t'' : Task} (h : t.Served c t') (h' : t'.Served c t'') :
    t.Served c t'' := by
  refine ⟨h'.work.trans h.work, ?_⟩
  obtain hstage | hstage := h'.stage
  · rw [hstage]
    exact h.stage
  · exact .inr hstage

/-- From one session to the other, the operation `i` has been served by the connection `c`. -/
structure Works (i c : Nat) (s s' : Session) : Prop where
  rest : s' = { s with connections := s'.connections, tasks := s'.tasks }
  connections : ChangedAt Connection.Used c s.connections s'.connections
  tasks : ChangedAt (Task.Served c) i s.tasks s'.tasks

namespace Works

variable {s s' s'' : Session} {m : Moment} {i c : Nat}

theorem refl (i c : Nat) (s : Session) : Works i c s s :=
  ⟨rfl, .refl .refl c _, .refl (Task.Served.refl c) i _⟩

theorem trans (h : Works i c s s') (h' : Works i c s' s'') : Works i c s s'' := by
  refine ⟨?_, h.connections.trans .trans h'.connections, h.tasks.trans .trans h'.tasks⟩
  rw [h'.rest, h.rest]

theorem lifecycle (h : Works i c s s') : s'.lifecycle = s.lifecycle := by rw [h.rest]
theorem gate (h : Works i c s s') : s'.gate = s.gate := by rw [h.rest]
theorem launches (h : Works i c s s') : s'.launches = s.launches := by rw [h.rest]

theorem stage?_other (h : Works i c s s') {j : Nat} (hj : j ≠ i) :
    s'.stage? j = s.stage? j := by
  simp only [stage?, h.tasks.others j hj]

theorem stage?_self (h : Works i c s s') {stage : Stage} (hstage : s'.stage? i = some stage) :
    s.stage? i = some stage ∨ stage.IsServedBy c := by
  obtain ⟨t', ht', rfl⟩ := Option.map_eq_some_iff.mp hstage
  obtain ⟨hi, -⟩ | ⟨-, t, ht, hserved⟩ := h.tasks.of_some ht'
  · exact absurd rfl hi
  · obtain hsame | hserved := hserved.stage
    · left
      rw [hsame]
      exact Option.map_eq_some_iff.mpr ⟨t, ht, rfl⟩
    · exact .inr hserved

theorem work? (h : Works i c s s') (j : Nat) : s'.work? j = s.work? j := by
  by_cases hj : j = i
  · subst hj
    cases ht : s.tasks[j]? with
    | none =>
      have hlong : s'.tasks.length ≤ j := h.tasks.length ▸ List.getElem?_eq_none_iff.mp ht
      simp only [Session.work?, ht, List.getElem?_eq_none hlong]
    | some t =>
      obtain ⟨t', ht', hserved⟩ := h.tasks.this t ht
      simp only [Session.work?, ht, ht', Option.map_some, hserved.work]
  · simp only [Session.work?, h.tasks.others j hj]

theorem updateConnection {f : Connection → Connection}
    (hf : ∀ k, s.connection? c = some k → k.Used (f k)) :
    Works i c s (s.updateConnection c f) :=
  ⟨rfl, .modify hf, .refl (Task.Served.refl c) i _⟩

theorem setLink {k : Connection} (hk : s.connection? c = some k) {l : Link} (hl : k.link.Used l) :
    Works i c s (s.setLink c l) := by
  refine updateConnection fun k' hk' => ?_
  obtain rfl : k = k' := Option.some.inj (hk.symm.trans hk')
  exact .of_link hl

theorem notify (n : Notice) : Works i c s (s.notify c n).2 := by
  unfold Session.notify
  cases hk : s.connection? c with
  | none => exact .refl i c s
  | some k => exact setLink hk (k.link.used_notify _ _)

theorem call (timeout : Nat) (method : String) (params : Option Json) :
    Works i c s (s.call m c timeout method params).2 := by
  unfold Session.call
  cases hk : s.connection? c with
  | none => exact .refl i c s
  | some k => exact setLink hk (k.link.used_call _ _ _ _)

theorem pollCall (call : Call) : Works i c s (s.pollCall m c call).2 := by
  unfold Session.pollCall
  cases hk : s.connection? c with
  | none => exact .refl i c s
  | some k => exact setLink hk (k.link.used_poll _ _)

theorem openDocument (path : Path) (uri text : String) :
    Works i c s (s.openDocument c path uri text).2 := by
  unfold Session.openDocument
  cases hk : s.connection? c with
  | none => exact .refl i c s
  | some k =>
    have hdocuments (documents : OpenDocuments) :
        Works i c s (s.updateConnection c fun k => { k with documents }) :=
      updateConnection fun k _ => ⟨.refl _, rfl, rfl, rfl, rfl, rfl⟩
    exact (hdocuments _).trans (notify _)

end Works

/-- The operation has come on by it: it waits for the connection, or is done. -/
structure Serves (i c : Nat) (s s' : Session) : Prop extends Works i c s s' where
  stage : ∀ t, s.tasks[i]? = some t → ∃ t', s'.tasks[i]? = some t' ∧ t'.stage.IsServedBy c

namespace Serves

variable {s s' s'' : Session} {m : Moment} {i c : Nat}

theorem of_works (h : Works i c s s') (h' : Serves i c s' s'') : Serves i c s s'' := by
  refine ⟨h.trans h'.toWorks, fun t ht => ?_⟩
  obtain ⟨t', ht', -⟩ := h.tasks.this t ht
  exact h'.stage t' ht'

theorem stage?_self (h : Serves i c s s') {stage : Stage} (hstage : s.stage? i = some stage) :
    ∃ stage', s'.stage? i = some stage' ∧ stage'.IsServedBy c := by
  obtain ⟨t, ht, -⟩ := Option.map_eq_some_iff.mp hstage
  obtain ⟨t', ht', hserved⟩ := h.stage t ht
  exact ⟨t'.stage, Option.map_eq_some_iff.mpr ⟨t', ht', rfl⟩, hserved⟩

theorem setStage {stage : Stage} (hstage : stage.IsServedBy c) :
    Serves i c s (s.setStage i stage) := by
  refine ⟨⟨rfl, .refl .refl c _, .modify fun _ _ => ⟨rfl, .inr hstage⟩⟩, fun t ht => ?_⟩
  exact ⟨{ t with stage }, by simp [Session.setStage, ht], hstage⟩

theorem finish (r : Except Failure Answer) : Serves i c s (s.finish i r) :=
  setStage trivial

theorem checkAsking (q : Query) (call : Call) : Serves i c s (s.checkAsking m i q c call) := by
  have hpoll : Works i c s (s.pollCall m c call).2 := .pollCall call
  unfold Session.checkAsking
  split
  · rename_i heq
    rw [heq] at hpoll
    exact .of_works hpoll (setStage rfl)
  · rename_i heq
    rw [heq] at hpoll
    exact .of_works hpoll (finish _)

theorem ask (path : Path) (q : Query) (uri : String) :
    Serves i c s (s.ask m i path q c uri) := by
  have hcall : Works i c s (s.call m c (seconds s.timeouts.request) q.method
    (some (q.params uri))).2 := .call _ _ _
  unfold Session.ask
  extract_lets k inside provided
  split
  · split
    · rename_i heq
      rw [heq] at hcall
      exact .of_works hcall (finish _)
    · rename_i heq
      rw [heq] at hcall
      exact .of_works hcall (checkAsking _ _)
  · exact finish _

theorem afterReading (path : Path) (q : Query) (uri : String) :
    Serves i c s (s.afterReading m i path q c uri) := by
  unfold Session.afterReading
  split
  · exact finish _
  · rename_i bytes _
    have hopen : Works i c s (s.openDocument c path uri (String.ofList (Utf8.lossy bytes))).2 :=
      .openDocument _ _ _
    split
    · exact ask _ _ _
    · split
      · rename_i heq
        rw [heq] at hopen
        exact .of_works hopen (finish _)
      · rename_i heq
        rw [heq] at hopen
        exact .of_works hopen (ask _ _ _)

theorem serve (hwork : ∀ r, s.work? i ≠ some (.shutdown r)) :
    Serves i c s (s.serve m i c) := by
  unfold Session.serve
  split
  · split
    · exact finish _
    · rename_i path text _ _ uri _
      have hopen : Works i c s (s.openDocument c path uri text).2 := .openDocument _ _ _
      split
      · rename_i heq
        rw [heq] at hopen
        exact .of_works hopen (finish _)
      · rename_i heq
        rw [heq] at hopen
        exact .of_works hopen (finish _)
  · split
    · exact ask _ _ _
    · split
      · exact finish _
      · exact setStage rfl
  · rename_i hopen hquery
    refine ⟨.refl i c s, fun t ht => ?_⟩
    have hw : s.work? i = some t.work := by simp [work?, ht]
    cases ht' : t.work with
    | «open» path text => exact absurd (ht' ▸ hw) (hopen path text)
    | query path q => exact absurd (ht' ▸ hw) (hquery path q)
    | shutdown r => exact absurd (ht' ▸ hw) (hwork r)

end Serves

end Session
end LanguageClient
