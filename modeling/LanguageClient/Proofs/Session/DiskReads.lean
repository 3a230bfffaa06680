import LanguageClient.Proofs.Session.Coherence

namespace LanguageClient

namespace Link

/-- From one link to the other, these mentions of documents are queued. -/
def Utters (l l' : Link) (ms : List Mention) : Prop :=
  ∃ os, l'.sent = l.sent ++ os ∧ os.filterMap Outgoing.mention? = ms

variable {l l' l'' : Link} {ms ms' : List Mention}

theorem Quiet.utters (h : Quiet l l') : Utters l l' [] := by
  obtain ⟨⟨os, hs, hos⟩, -⟩ := h
  exact ⟨os, hs, List.filterMap_eq_nil_iff.mpr hos⟩

theorem Utters.trans (h : Utters l l' ms) (h' : Utters l' l'' ms') : Utters l l'' (ms ++ ms') := by
  obtain ⟨os, hs, rfl⟩ := h
  obtain ⟨os', hs', rfl⟩ := h'
  exact ⟨os ++ os', by rw [hs', hs, List.append_assoc], List.filterMap_append⟩

theorem Utters.of_append {o : Outgoing} {m : Mention} (ho : o.mention? = some m)
    (h : l'.sent = l.sent ++ [o]) : Utters l l' [m] :=
  ⟨[o], h, by simp [ho]⟩

theorem Utters.replica (h : Utters l l' ms) :
    Replica.ofSent l'.sent = ms.foldl Replica.learn (Replica.ofSent l.sent) := by
  have hfold (r : Replica) (os : List Outgoing) :
      os.foldl Replica.receive r = (os.filterMap Outgoing.mention?).foldl Replica.learn r := by
    induction os generalizing r with
    | nil => rfl
    | cons o os ih =>
      rw [List.foldl_cons, ih]
      cases ho : o.mention? <;> simp [Replica.receive, ho]
  obtain ⟨os, hs, rfl⟩ := h
  rw [hs, ← hfold, Replica.ofSent, Replica.ofSent, List.foldl_append]

end Link

namespace Session

/-- Each connection of the one session is related to that of the other. -/
def Reaches (s s' : Session) (R : Connection → Connection → Prop) : Prop :=
  ∀ j k, s.connection? j = some k → ∃ k', s'.connection? j = some k' ∧ R k k'

/-- A query about this document may be sent, and nothing else about documents. -/
def Asks (q : Query) (uri : String) (k k' : Connection) : Prop :=
  k'.documents = k.documents ∧
    (k.link.Utters k'.link [] ∨ k.link.Utters k'.link [.asked q.method uri q.position?])

/-- A document that the server does not have open may be opened, and nothing else be sent. -/
def Opens (uri text : String) (k k' : Connection) : Prop :=
  k.link.Utters k'.link [] ∨
    Replica.ofSent k.link.sent uri = none ∧ k.link.Utters k'.link [.opened uri 1 text]

/-- What may happen to a connection when a query goes on with what was found on disk: the document
is opened with that text if the server does not have it open, and the query is sent. -/
def Fetches (found : Except SystemError Bytes) (q : Query) (uri : String)
    (k k' : Connection) : Prop :=
  ∃ ms, k.link.Utters k'.link ms ∧
    (∀ x ∈ ms, x = .asked q.method uri q.position? ∨
      ∃ bytes, found = .ok bytes ∧ Replica.ofSent k.link.sent uri = none ∧
        x = .opened uri 1 (String.ofList (Utf8.lossy bytes))) ∧
    ∀ e, found = .error e → ms = [] ∧ k'.documents = k.documents

variable {s s' s'' : Session} {m : Moment} {i c : Nat} {q : Query} {uri : String}

theorem Reaches.trans {P Q R : Connection → Connection → Prop} (h : s.Reaches s' P)
    (h' : s'.Reaches s'' Q) (hR : ∀ {k k' k''}, P k k' → Q k' k'' → R k k'') :
    s.Reaches s'' R := by
  intro j k hk
  obtain ⟨k', hk', hP⟩ := h j k hk
  obtain ⟨k'', hk'', hQ⟩ := h' j k' hk'
  exact ⟨k'', hk'', hR hP hQ⟩

theorem Reaches.same {R : Connection → Connection → Prop} (hR : ∀ k, R k k)
    (h : ∀ j, s'.connection? j = s.connection? j) : s.Reaches s' R := by
  intro j k hk
  exact ⟨k, (h j).trans hk, hR k⟩

theorem Reaches.setLink {R : Connection → Connection → Prop} (hR : ∀ k, R k k) {k : Connection}
    (hk : s.connection? c = some k) {l : Link} (hl : R k { k with link := l }) :
    s.Reaches (s.setLink c l) R := by
  intro j k' hk'
  unfold Session.setLink
  rw [connection?_updateConnection]
  split
  · rename_i hj
    subst hj
    rw [hk] at hk'
    cases hk'
    rw [hk]
    exact ⟨_, rfl, hl⟩
  · exact ⟨k', hk', hR k'⟩

theorem Asks.of_quiet {k k' : Connection} (hd : k'.documents = k.documents)
    (h : k.link.Quiet k'.link) : Asks q uri k k' :=
  ⟨hd, .inl h.utters⟩

theorem Asks.refl (q : Query) (uri : String) (k : Connection) : Asks q uri k k :=
  .of_quiet rfl (.refl _)

theorem Asks.trans_quiet {k k' k'' : Connection} (h : Asks q uri k k')
    (h' : k'.Quiet k'') : Asks q uri k k'' := by
  obtain ⟨hd, h⟩ := h
  refine ⟨h'.documents.trans hd, ?_⟩
  obtain h | h := h
  · exact .inl (h.trans h'.link.utters)
  · exact .inr (h.trans h'.link.utters)

theorem reaches_checkAsking (s : Session) (m : Moment) (i : Nat) (q : Query) (c : Nat)
    (call : Call) : s.Reaches (s.checkAsking m i q c call) Connection.Quiet := by
  have hpoll : s.Reaches (s.pollCall m c call).2 Connection.Quiet := by
    unfold pollCall
    cases hk : s.connection? c with
    | none => exact .same (fun k => ⟨rfl, .refl _⟩) fun j => rfl
    | some k => exact .setLink (fun k => ⟨rfl, .refl _⟩) hk ⟨rfl, k.link.quiet_poll m.now call⟩
  unfold checkAsking
  split
  · rename_i heq
    rw [heq] at hpoll
    exact hpoll
  · rename_i heq
    rw [heq] at hpoll
    exact hpoll

theorem reaches_ask (s : Session) (m : Moment) (i : Nat) (path : Path) (q : Query) (c : Nat)
    (uri : String) : s.Reaches (s.ask m i path q c uri) (Asks q uri) := by
  obtain heq | ⟨-, hask⟩ := s.ask_cases m i path q c uri
  · rw [heq]
    exact .same (Asks.refl q uri) fun j => rfl
  · have hcall : s.Reaches (s.call m c (seconds s.timeouts.request) q.method
        (some (q.params uri))).2 (Asks q uri) := by
      unfold call
      cases hk : s.connection? c with
      | none => exact .same (Asks.refl q uri) fun j => rfl
      | some k =>
        refine .setLink (Asks.refl q uri) hk ⟨rfl, ?_⟩
        have hsent := k.link.sent_call m.now (seconds s.timeouts.request) q.method
          (some (q.params uri))
        have hmention := Outgoing.mention?_request k.link.nextId q.method (some (q.params uri))
        rw [q.isAboutDocument_method, if_pos rfl, q.uriOf_params, q.placeOf_params] at hmention
        split at hsent
        · exact .inr (.of_append hmention hsent)
        · exact .inl ⟨[], by rw [List.append_nil]; exact hsent, rfl⟩
    obtain ⟨f, s', heq, hask⟩ | ⟨call, s', heq, hask⟩ := hask
    · rw [heq] at hcall
      rw [hask]
      exact hcall
    · rw [heq] at hcall
      rw [hask]
      exact hcall.trans (s'.reaches_checkAsking m i q c call) Asks.trans_quiet

theorem reaches_openDocument (h : s.Coherent) {path : Path}
    (hp : FileUri.ofPath? path = some uri)
    (hclosed : (s.connection? c).bind (·.documents.get? path) = none) (text : String) :
    s.Reaches (s.openDocument c path uri text).2 (Opens uri text) := by
  intro j k hk
  rw [connection?_openDocument]
  split
  · rename_i hj
    subst hj
    rw [hk, Option.bind_some] at hclosed
    have hopen := OpenDocuments.open_of_get?_eq_none hclosed uri s.server.languageId text
    simp only [hk, Option.map_some, hopen]
    refine ⟨_, rfl, ?_⟩
    have hsent := k.link.sent_notify "textDocument/didOpen"
      (some (Params.opened uri s.server.languageId 1 text))
    cases ht : k.link.takes with
    | false =>
      rw [ht] at hsent
      exact .inl ⟨[], by rw [List.append_nil]; exact hsent, rfl⟩
    | true =>
      rw [ht, if_pos rfl] at hsent
      have hmention := Outgoing.mention?_opened uri s.server.languageId text 1
      exact .inr ⟨((h.connections hk).mirrors ht).unknown hp hclosed, .of_append hmention hsent⟩
  · exact ⟨k, hk, .inl (Link.Quiet.refl _).utters⟩

theorem Fetches.refl (found : Except SystemError Bytes) (q : Query) (uri : String)
    (k : Connection) : Fetches found q uri k k :=
  ⟨[], (Link.Quiet.refl _).utters, by simp, fun _ _ => ⟨rfl, rfl⟩⟩

theorem Fetches.of_asks {bytes : Bytes} {k k' : Connection} (h : Asks q uri k k') :
    Fetches (.ok bytes) q uri k k' := by
  obtain ⟨-, h | h⟩ := h
  · exact ⟨[], h, by simp, by simp⟩
  · exact ⟨[_], h, by simp, by simp⟩

theorem Fetches.of_opens {bytes : Bytes} {k k' k'' : Connection}
    (h : Opens uri (String.ofList (Utf8.lossy bytes)) k k') (h' : Asks q uri k' k'') :
    Fetches (.ok bytes) q uri k k'' := by
  obtain ⟨-, h'⟩ := h'
  obtain h | ⟨hclosed, h⟩ := h
  · obtain h' | h' := h'
    · exact ⟨_, h.trans h', by simp, by simp⟩
    · exact ⟨_, h.trans h', by simp, by simp⟩
  · obtain h' | h' := h'
    · exact ⟨_, h.trans h', by simp [hclosed], by simp⟩
    · exact ⟨_, h.trans h', by simp [hclosed], by simp⟩

theorem reaches_afterReading (h : s.Coherent) (m : Moment) (i : Nat) {path : Path}
    (hp : FileUri.ofPath? path = some uri) :
    s.Reaches (s.afterReading m i path q c uri) (Fetches (m.disk path) q uri) := by
  unfold afterReading
  cases hdisk : m.disk path with
  | error e => exact .same (Fetches.refl _ q uri) fun j => rfl
  | ok bytes =>
    simp only
    split
    · intro j k hk
      obtain ⟨k', hk', hasks⟩ := s.reaches_ask m i path q c uri j k hk
      exact ⟨k', hk', .of_asks hasks⟩
    · rename_i hclosed
      have hclosed : (s.connection? c).bind (·.documents.get? path) = none := by
        simpa using hclosed
      have hopen := reaches_openDocument h hp hclosed (String.ofList (Utf8.lossy bytes))
      split
      · rename_i heq
        rw [heq] at hopen
        intro j k hk
        obtain ⟨k', hk', hopens⟩ := hopen j k hk
        exact ⟨k', hk', .of_opens hopens (Asks.refl q uri k')⟩
      · rename_i s' heq
        rw [heq] at hopen
        exact hopen.trans (s'.reaches_ask m i path q c uri) Fetches.of_opens

theorem reaches_tidy (s : Session) : s.Reaches s.tidy Connection.Quiet := by
  intro j k hk
  rw [connection?_tidy, hk]
  refine ⟨_, rfl, ?_⟩
  split
  · exact k.quiet_reap
  · exact k.quiet_release

theorem Fetches.trans_quiet {found : Except SystemError Bytes} {k k' k'' : Connection}
    (h : Fetches found q uri k k') (h' : k'.Quiet k'') : Fetches found q uri k k'' := by
  obtain ⟨ms, hms, hkinds, herror⟩ := h
  refine ⟨ms ++ [], hms.trans h'.link.utters, by rwa [List.append_nil], fun e he => ?_⟩
  obtain ⟨rfl, hd⟩ := herror e he
  exact ⟨rfl, h'.documents.trans hd⟩

theorem reaches_resume (h : s.Coherent) (m : Moment) {i c : Nat} {path : Path}
    (hstage : s.stage? i = some (.reading c uri)) (hwork : s.work? i = some (.query path q)) :
    s.Reaches (s.resume m i) (Fetches (m.disk path) q uri) := by
  have hstretch : s.stretch m i = s.afterReading m i path q c uri := by
    unfold stage? at hstage
    unfold work? at hwork
    obtain ⟨t, ht, hts⟩ := Option.map_eq_some_iff.mp hstage
    rw [ht] at hwork
    have htw : t.work = .query path q := Option.some.inj hwork
    simp only [stretch, ht, hts, htw]
  unfold resume
  rw [hstretch]
  have hread := reaches_afterReading h m i (q := q) (c := c) (h.reading hstage hwork)
  exact hread.trans (reaches_tidy _) Fetches.trans_quiet

/-- What is open at the server keeps its text. -/
theorem Fetches.keeps {found : Except SystemError Bytes} {k k' : Connection}
    (h : Fetches found q uri k k') {u : String} {d : Nat × String}
    (hd : Replica.ofSent k.link.sent u = some d) : Replica.ofSent k'.link.sent u = some d := by
  obtain ⟨ms, hms, hkinds, -⟩ := h
  rw [hms.replica]
  clear hms
  -- from the back: the last message asks, or opens what is not open
  induction ms using List.reverseRecOn with
  | nil => exact hd
  | append_singleton ms x ih =>
    rw [List.foldl_append]
    have hbefore := ih fun y hy => hkinds y (List.mem_append_left _ hy)
    obtain rfl | ⟨bytes, -, hclosed, rfl⟩ :=
      hkinds x (List.mem_append_right _ (List.mem_singleton_self x))
    · exact hbefore
    · have hne : u ≠ uri := by
        rintro rfl
        rw [hd] at hclosed
        cases hclosed
      exact (Function.update_of_ne hne _ _).trans hbefore

theorem begin_disk (s : Session) (m : Moment) (disk : Path → Except SystemError Bytes) (w : Work) :
    s.begin { m with disk } w = s.begin m w :=
  rfl

theorem resume_disk (s : Session) (m : Moment) (disk : Path → Except SystemError Bytes) {i : Nat}
    (h : ∀ c uri, s.stage? i ≠ some (.reading c uri)) :
    s.resume { m with disk } i = s.resume m i := by
  unfold resume stretch
  cases ht : s.tasks[i]? with
  | none => rfl
  | some t =>
    have hstage (c : Nat) (uri : String) : t.stage ≠ .reading c uri := by
      intro heq
      exact h c uri (by simp [stage?, ht, heq])
    obtain ⟨work, stage⟩ := t
    cases stage with
    | reading c uri => exact absurd rfl (hstage c uri)
    | queued | handshaking | asking | stopping | reaping | killing | done | dropped =>
      cases work <;> rfl

/-- Whenever a server is asked about a document it has that document open, and the place asked about
lies in the text that it has. A file that was read is at most sent as the opening of a document that
the server does not have open, so it takes the place of no text, and a failed reading leaves nothing
behind. Nothing else depends on what is on disk. -/
theorem requests_are_about_known_text (language : String) (server : Setup.Server)
    (timeouts : Setup.Timeouts) (processId : Nat) (rootUri : String) (es : List Event) :
    let s := (new language server timeouts processId rootUri).run es
    (∀ c k, s.connection? c = some k → ∀ front o back method uri at_,
      k.link.sent = front ++ o :: back → o.mention? = some (.asked method uri at_) →
      ∃ n text, Replica.ofSent front uri = some (n, text) ∧
        (method ∈ Mention.placed → ∃ p, at_ = some p ∧ p.Inside text)) ∧
    (∀ m i c uri path q, s.stage? i = some (.reading c uri) →
      s.work? i = some (.query path q) → ∀ j k, s.connection? j = some k →
      ∃ k' ms, (s.resume m i).connection? j = some k' ∧ k.link.Utters k'.link ms ∧
        (∀ x ∈ ms, x = .asked q.method uri q.position? ∨
          ∃ bytes, m.disk path = .ok bytes ∧ Replica.ofSent k.link.sent uri = none ∧
            x = .opened uri 1 (String.ofList (Utf8.lossy bytes))) ∧
        (∀ u d, Replica.ofSent k.link.sent u = some d → Replica.ofSent k'.link.sent u = some d) ∧
        ∀ e, m.disk path = .error e → ms = [] ∧ k'.documents = k.documents) ∧
    (∀ m disk w, s.begin { m with disk } w = s.begin m w) ∧
    ∀ m disk i, (∀ c uri, s.stage? i ≠ some (.reading c uri)) →
      s.resume { m with disk } i = s.resume m i := by
  intro s
  have h : s.Coherent := (Coherent.new language server timeouts processId rootUri).run es
  refine ⟨fun c k hk front o back method uri at_ heq hm => ?_, ?_, s.begin_disk,
    fun m disk i => s.resume_disk m disk⟩
  · exact (h.connections hk).orderly front o back _ heq hm
  · intro m i c uri path q hstage hwork j k hk
    obtain ⟨k', hk', hfetches⟩ := reaches_resume h m hstage hwork j k hk
    obtain ⟨ms, hms, hkinds, herror⟩ := hfetches
    refine ⟨k', ms, hk', hms, hkinds, fun u d hd => ?_, herror⟩
    exact Fetches.keeps ⟨ms, hms, hkinds, herror⟩ hd

end Session
end LanguageClient
