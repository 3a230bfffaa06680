import LanguageClient.Proofs.Session.Outcomes

namespace LanguageClient

namespace Link

/-- As long as the link is open, its writer is at work and no end is queued. -/
def Hale (l : Link) : Prop :=
  l.closing? = none → l.writing = true ∧ .finish ∉ l.sent

/-- From one link to the other, an open one stays hale, and a closed one stays closed. -/
structure Ages (l l' : Link) : Prop where
  closing : l'.closing? = l.closing? ∨ l.closing? = none
  hale : l.Hale → l'.Hale

variable {l l' l'' : Link}

theorem Ages.refl (l : Link) : l.Ages l :=
  ⟨.inl rfl, id⟩

theorem Ages.open_of_open (h : l.Ages l') (hopen : l'.closing? = none) : l.closing? = none := by
  obtain heq | hnone := h.closing
  · rw [← heq, hopen]
  · exact hnone

theorem Used.ages (h : l.Used l') : l.Ages l' := by
  refine ⟨.inl h.closing, fun hhale hopen => ?_⟩
  obtain ⟨hwriting, hsent⟩ := hhale (h.closing ▸ hopen)
  obtain ⟨vs, hvs⟩ := h.sent
  refine ⟨h.writing.trans hwriting, ?_⟩
  rw [hvs]
  simp [hsent]

theorem ages_of_same (hinflight : l'.inflight = l.inflight) (hwriting : l'.writing = l.writing)
    (hsent : l'.sent = l.sent) : l.Ages l' := by
  have hclosing : l'.closing? = l.closing? := congrArg Inflight.closed hinflight
  refine ⟨.inl hclosing, fun hhale hopen => ?_⟩
  rw [hwriting, hsent]
  exact hhale (hclosing ▸ hopen)

theorem ages_of_closed (hclosing : l'.closing? = l.closing? ∨ l.closing? = none)
    (hclosed : l'.closing? ≠ none) : l.Ages l' :=
  ⟨hclosing, fun _ hopen => absurd hopen hclosed⟩

theorem ages_close (l : Link) : l.Ages l.close := by
  refine ages_of_closed ?_ ?_
  · rw [closing?_close]
    exact Conversation.some_getD_eq _ _
  · simp [closing?_close]

theorem ages_stopReading (l : Link) (rest : Bytes) (reason : Closing) :
    l.Ages ({ l with input := rest }.stopReading reason) := by
  refine ages_of_closed ?_ (by simp)
  exact Conversation.some_getD_eq l.closing? reason

theorem ages_route (l : Link) (rest : Bytes) (v : Json) :
    l.Ages ({ l with input := rest }.route v).1 := by
  have hclosing : ({ l with input := rest }.route v).1.closing? = l.closing? :=
    closing?_route _ _
  refine ⟨.inl hclosing, fun hhale hopen => ?_⟩
  obtain ⟨hwriting, hsent⟩ := hhale (hclosing ▸ hopen)
  refine ⟨by simpa using hwriting, ?_⟩
  obtain heq | ⟨id, method, params, heq⟩ := sent_route { l with input := rest } v
  · rw [heq]
    exact hsent
  · rw [heq]
    simp [hsent]

theorem ages_readNext? {p : Option Publication} (h : l.readNext? = some (l', p)) :
    l.Ages l' := by
  obtain ⟨-, ⟨-, rfl⟩ | ⟨fault, rest, -, rfl⟩ | ⟨v, rest, -, rfl⟩⟩ := readNext?_eq h
  · exact ages_stopReading l l.input .exited
  · exact ages_stopReading l rest _
  · exact ages_route l rest v

theorem ages_writeNext? {accepted : Bool} {what : Written}
    (h : l.writeNext? accepted = some (what, l')) : l.Ages l' := by
  obtain ⟨-, ⟨hnext, rfl⟩ | ⟨-, rfl⟩ | ⟨-, v, -, rfl⟩⟩ := writeNext?_eq h
  · -- only a closed link comes to the end of its queue
    refine ⟨.inl rfl, fun hhale hopen => ?_⟩
    exact absurd (List.mem_of_getElem? hnext) (hhale hopen).2
  · exact ages_of_same rfl rfl rfl
  · refine ages_of_closed ?_ ?_
    · exact Conversation.some_getD_eq l.closing? .exited
    · show some (l.closing?.getD .exited) ≠ none
      simp

end Link

namespace Session

def added (s : Session) (w : Work) : Session :=
  { s with tasks := s.tasks ++ [(⟨w, .queued⟩ : Task)] }

def joined (s : Session) (w : Work) (lifecycle : Lifecycle) : Session :=
  { s with
    tasks := s.tasks ++ [(⟨w, .queued⟩ : Task)]
    lifecycle
    gate := s.gate ++ [s.tasks.length] }

/-- What beginning an operation comes to. -/
inductive Begins (m : Moment) (w : Work) (s : Session) : Session → Prop
  | refused {r : Except Failure Answer} :
      Begins m w s ((s.added w).finish s.tasks.length r)
  | served {c : Nat} {s' : Session} (work : ∀ r, w ≠ .shutdown r) (serving : s.Serving c)
      (serves : Serves s.tasks.length c (s.added w) s') : Begins m w s s'
  | queues {lifecycle : Lifecycle} (settles : Settles s lifecycle) (busy : s.gate ≠ []) :
      Begins m w s (s.joined w lifecycle)
  | turns {lifecycle : Lifecycle} {s' : Session} (settles : Settles s lifecycle)
      (free : s.gate = []) (outcome : Outcome m s.tasks.length (s.joined w lifecycle) s') :
      Begins m w s s'

/-- A connection on which a call is given up, or whose process is told to end. -/
structure Connection.Left (k k' : Connection) : Prop where
  link : k.link.Used k'.link
  established : k'.established = k.established
  released : k'.released = k.released

inductive Step (s : Session) : Event → Session → Prop
  | nothing {e : Event} : Step s e s
  | begins {m : Moment} {w : Work} {s' : Session} (begins : Begins m w s s') :
      Step s (.begin m w) s'.tidy
  | resumes {m : Moment} {i : Nat} {s' : Session} (outcome : Outcome m i s s') :
      Step s (.resume m i) s'.tidy
  | cancels {i : Nat} {stage : Stage} {ks : List Connection} (stage_ : s.stage? i = some stage)
      (left : ks = s.connections ∨
        ∃ c, stage.connection? = some c ∧ ChangedAt Connection.Left c s.connections ks) :
      Step s (.cancel i) (({ s with connections := ks }.setStage i .dropped).leaveGate i).tidy
  | settles {e : Event} {lifecycle : Lifecycle} (settles : Settles s lifecycle) :
      Step s e { s with lifecycle }.tidy
  | tells {e : Event} {c : Nat} {ks : List Connection} (serving : s.Serving c)
      (told : ChangedAt Connection.Used c s.connections ks) :
      Step s e { s with connections := ks }.tidy
  | reads {c : Nat} {k : Connection} {l : Link} {p : Option Publication}
      (connection : s.connection? c = some k) (read : k.link.readNext? = some (l, p)) :
      Step s (.read c) (s.setLink c l).tidy
  | writes {c : Nat} {accepted : Bool} {k : Connection} {l : Link} {what : Link.Written}
      (connection : s.connection? c = some k)
      (write : k.link.writeNext? accepted = some (what, l)) :
      Step s (.write c accepted) (s.setLink c l)
  | receives {c : Nat} {bs : Bytes} {k : Connection} (connection : s.connection? c = some k) :
      Step s (.receive c bs) (s.setLink c (k.link.receive bs))
  | endsInput {c : Nat} {k : Connection} (connection : s.connection? c = some k) :
      Step s (.endInput c) (s.setLink c k.link.endInput)
  | tidies : Step s .tidy s.tidy

variable {s : Session} {m : Moment}

theorem getElem?_tasks_added (s : Session) (w : Work) (i : Nat) :
    (s.added w).tasks[i]? = if i = s.tasks.length then some ⟨w, .queued⟩ else s.tasks[i]? := by
  rw [added, List.getElem?_append]
  obtain hlt | rfl | hgt := Nat.lt_trichotomy i s.tasks.length
  · rw [if_pos hlt, if_neg (Nat.ne_of_lt hlt)]
  · simp
  · have hone : i - s.tasks.length ≠ 0 := by omega
    rw [if_neg (Nat.lt_asymm hgt), if_neg (Nat.ne_of_gt hgt),
      List.getElem?_eq_none (Nat.le_of_lt hgt), List.getElem?_singleton, if_neg hone]

theorem stage?_added (w : Work) (i : Nat) :
    (s.added w).stage? i = if i = s.tasks.length then some .queued else s.stage? i := by
  rw [stage?, getElem?_tasks_added]
  split <;> rfl

theorem work?_added (w : Work) (i : Nat) :
    (s.added w).work? i = if i = s.tasks.length then some w else s.work? i := by
  rw [work?, getElem?_tasks_added]
  split <;> rfl

theorem stage?_added_self (s : Session) (w : Work) :
    (s.added w).stage? s.tasks.length = some .queued := by
  rw [stage?_added, if_pos rfl]

theorem work?_added_self (s : Session) (w : Work) :
    (s.added w).work? s.tasks.length = some w := by
  rw [work?_added, if_pos rfl]

theorem stage?_added_of_some (w : Work) {i : Nat} {stage : Stage} (hi : s.stage? i = some stage) :
    (s.added w).stage? i = some stage := by
  rw [stage?_added, if_neg]
  · exact hi
  · rintro rfl
    simp [stage?] at hi

theorem stage?_of_added {w : Work} {i : Nat} {stage : Stage}
    (hi : (s.added w).stage? i = some stage) (hstage : stage ≠ .queued) :
    s.stage? i = some stage := by
  rw [stage?_added] at hi
  split at hi
  · exact absurd (Option.some.inj hi).symm hstage
  · exact hi

/-- Whoever begins joins the queue, and has the turn if nobody is before. -/
theorem begins_enterGate {w : Work} {lifecycle : Lifecycle} (settles : Settles s lifecycle) :
    Begins m w s (Session.enterGate
      { s with tasks := s.tasks ++ [(⟨w, .queued⟩ : Task)], lifecycle } m s.tasks.length) := by
  unfold enterGate
  by_cases hgate : s.gate = []
  · have hturn : (s.joined w lifecycle).HasTurn s.tasks.length := by
      constructor
      case stage => exact s.stage?_added_self w
      case first => simp [joined, hgate]
    have hfree : s.gate.isEmpty = true := List.isEmpty_iff.mpr hgate
    simp only [hfree, if_true]
    exact .turns settles hgate (outcome_takeTurn hturn)
  · have hbusy : s.gate.isEmpty = false := by simpa using hgate
    simp only [hbusy, Bool.false_eq_true, if_false]
    exact .queues settles hgate

theorem begins_unless_live {w : Work} (work : ∀ r, w ≠ .shutdown r) :
    Begins m w s (match (s.added w).live? with
      | (some c, s₁) => s₁.serve m s.tasks.length c
      | (none, s₁) => s₁.enterGate m s.tasks.length) := by
  obtain ⟨c, hserving, hlive⟩ | ⟨halone, lifecycle, hsettles, hlive⟩ := (s.added w).live?_cases
  · rw [hlive]
    refine .served work ⟨hserving.ready, hserving.opened⟩ (.serve fun r hr => ?_)
    rw [work?_added_self] at hr
    exact work r (Option.some.inj hr)
  · rw [hlive]
    refine begins_enterGate ?_
    cases hsettles with
    | same => exact .same
    | crashed ready closed => exact .crashed ready closed

theorem exists_begins (s : Session) (m : Moment) (w : Work) :
    ∃ s', Begins m w s s' ∧ s.begin m w = s'.tidy := by
  unfold begin
  extract_lets i added' done
  refine ⟨done, ?_, rfl⟩
  cases w with
  | shutdown r => exact begins_enterGate .same
  | «open» path text =>
    simp only [done]
    split
    · exact .refused
    · exact begins_unless_live (by simp)
  | query path q => exact begins_unless_live (by simp)

theorem step_begin (m : Moment) (w : Work) : Step s (.begin m w) (s.begin m w) := by
  obtain ⟨s', hbegins, heq⟩ := s.exists_begins m w
  rw [heq]
  exact .begins hbegins

theorem step_cancel (i : Nat) : Step s (.cancel i) (s.cancel i) := by
  have habandon (c : Nat) (call : Call) : ChangedAt Connection.Left c s.connections
      (s.abandonCall c call).connections :=
    .modify fun k _ => ⟨k.link.used_abandon call, rfl, rfl⟩
  unfold cancel
  split
  · exact .nothing
  · exact .nothing
  · exact .nothing
  · rename_i stage _ _ hstage
    extract_lets left
    simp only [left]
    split
    · exact .cancels hstage (.inr ⟨_, rfl, habandon _ _⟩)
    · exact .cancels hstage (.inr ⟨_, rfl, habandon _ _⟩)
    · exact .cancels hstage (.inr ⟨_, rfl, habandon _ _⟩)
    · rename_i c deadline _ _
      exact .cancels hstage (.inr ⟨c, rfl, .modify fun k _ => ⟨.refl _, rfl, rfl⟩⟩)
    · exact .cancels hstage (.inl rfl)

theorem changed_tell (c : Nat) (documents : OpenDocuments) (n : Notice) :
    ∃ ks, ((s.updateConnection c fun k => { k with documents }).notify c n).2 =
      { s with connections := ks } ∧ ChangedAt Connection.Used c s.connections ks := by
  have hupdated : Works 0 c s (s.updateConnection c fun k => { k with documents }) :=
    .updateConnection fun k _ => ⟨.refl _, rfl, rfl, rfl, rfl, rfl⟩
  have htold := hupdated.trans (Works.notify n)
  have htasks := tasks_notify (s.updateConnection c fun k => { k with documents }) c n
  refine ⟨_, ?_, htold.connections⟩
  have hrest := htold.rest
  rw [htasks] at hrest
  exact hrest

theorem step_change (path : Path) (text : String) :
    Step s (.change path text) (s.change path text).2 := by
  unfold change
  obtain ⟨c, hserving, hlive⟩ | ⟨halone, lifecycle, hsettles, hlive⟩ := s.live?_cases
  · rw [hlive]
    cases hchange : (s.connection? c).bind (·.documents.change? path text) with
    | none =>
      simp only [hchange]
      exact .settles .same
    | some told =>
      obtain ⟨notice, documents⟩ := told
      simp only [hchange]
      obtain ⟨ks, htold, hks⟩ := changed_tell (s := s) c documents notice
      rw [htold]
      exact .tells hserving hks
  · rw [hlive]
    exact .settles hsettles

theorem step_close (path : Path) : Step s (.close path) (s.close path) := by
  unfold close
  obtain ⟨c, hserving, hlive⟩ | ⟨halone, lifecycle, hsettles, hlive⟩ := s.live?_cases
  · rw [hlive]
    cases hclose : (s.connection? c).bind (·.documents.close? path) with
    | none =>
      simp only [hclose]
      exact .settles .same
    | some told =>
      obtain ⟨notice, documents⟩ := told
      simp only [hclose]
      obtain ⟨ks, htold, hks⟩ := changed_tell (s := s) c documents notice
      rw [htold]
      exact .tells hserving hks
  · rw [hlive]
    exact .settles hsettles

theorem step_read (c : Nat) : Step s (.read c) (s.step (.read c)) := by
  obtain ⟨heq, -⟩ | ⟨k, l, p, hk, hread, heq⟩ := s.step_read_cases c
  · rw [heq]
    exact .nothing
  · rw [heq]
    exact .reads hk hread

theorem step_write (c : Nat) (accepted : Bool) :
    Step s (.write c accepted) (s.step (.write c accepted)) := by
  obtain ⟨heq, -⟩ | ⟨k, what, l, hk, hwrite, heq⟩ := s.step_write_cases c accepted
  · rw [heq]
    exact .nothing
  · rw [heq]
    exact .writes hk hwrite

theorem updateConnection_link (c : Nat) (f : Link → Link) :
    (∃ k, s.connection? c = some k ∧
      (s.updateConnection c fun k => { k with link := f k.link }) = s.setLink c (f k.link)) ∨
      (s.updateConnection c fun k => { k with link := f k.link }) = s := by
  cases hk : s.connection? c with
  | none =>
    right
    have hlong : s.connections.length ≤ c := List.getElem?_eq_none_iff.mp hk
    unfold updateConnection
    rw [List.modify_eq_self hlong]
  | some k =>
    refine .inl ⟨k, rfl, ?_⟩
    have hsame : s.connections.modify c (fun k' => { k' with link := f k'.link }) =
        s.connections.modify c (fun k' => { k' with link := f k.link }) := by
      apply modify_congr
      intro k' hk'
      obtain rfl : k = k' := Option.some.inj (hk.symm.trans hk')
      rfl
    unfold setLink updateConnection
    rw [hsame]

theorem step_step (hwork : ∀ i c call r, s.stage? i = some (.handshaking c call) →
    s.work? i ≠ some (.shutdown r)) (e : Event) : Step s e (s.step e) := by
  cases e with
  | begin m w => exact step_begin m w
  | resume m i => exact .resumes (outcome_stretch (hwork i))
  | cancel i => exact step_cancel i
  | change path text => exact step_change path text
  | close path => exact step_close path
  | read c => exact step_read c
  | write c accepted => exact step_write c accepted
  | receive c bs =>
    obtain ⟨k, hk, heq⟩ | heq := updateConnection_link (s := s) c (·.receive bs)
    · rw [step, heq]
      exact .receives hk
    · rw [step, heq]
      exact .nothing
  | endInput c =>
    obtain ⟨k, hk, heq⟩ | heq := updateConnection_link (s := s) c Link.endInput
    · rw [step, heq]
      exact .endsInput hk
    · rw [step, heq]
      exact .nothing
  | tidy => exact .tidies

end Session
end LanguageClient
