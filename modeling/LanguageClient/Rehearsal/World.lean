import LanguageClient.Rehearsal.Peer
import LanguageClient.Workspace

namespace LanguageClient.Rehearsal

/-- How one launch goes: a server with these rules, or a failure. -/
inductive Plan where
  | server (rules : List (String × List Reaction))
  | fail (reason : String)

/-- Who receives diagnostics: under a tag, unless the URI contains a text at which the receiver
breaks down. -/
structure Receiver where
  tag : String
  breaksAt : Option String

structure Event where
  tag : String
  publication : Publication

/-- An operation that runs beside the steps: it has an answer, or it consists of operations of
sessions. -/
inductive Job where
  | answered (r : Except Failure Answer)
  | running (parts : List (String × Nat))
  | collected

/-- A workspace together with the servers behind it. The n-th launch of a language whose command is
`scripted` goes by the n-th of its plans, and the last one from then on; other commands become
processes. `woken` lists the operations that can go on, in the order in which they came to that.
`settles` says whether everything comes to rest after a step. -/
structure World where
  workspace : Workspace
  files : Machine.Files
  environment : List (Machine.Raw × Machine.Raw) := []
  scripted : Option String := none
  settles : Bool := true
  plans : List (String × List Plan) := []
  now : Nat := 0
  peers : List ((String × Nat) × Peer) := []
  woken : List (String × Nat) := []
  jobs : List Job := []
  named : List (String × Nat) := []
  receiver : Option Receiver := none
  events : List Event := []

namespace World

def plan (w : World) (language : String) (n : Nat) : Plan :=
  match w.plans.lookup language with
  | none => .server []
  | some ps => (ps[n]? <|> ps.getLast?).getD (.server [])

/-- What a launch leads to: the n-th for a language, counted from zero. -/
def peerFor (w : World) (language : String) (n : Nat) : Except Failure Peer :=
  match w.workspace.setup.server? language with
  | none => .error (.startFailed language "")
  | some server =>
    if w.scripted = some server.command then
      match w.plan language n with
      | .server rules => .ok (.scripted { rules })
      | .fail reason => .error (.startFailed language reason)
    else match Machine.start w.files w.environment w.workspace.root server.command server.args with
      | .ok process => .ok (.running { process })
      | .error .notFound => .error (.notInstalled language server.command)
      | .error (.refused program reason) =>
        .error (.startFailed language s!"spawning {program}: {reason}")

def launch (w : World) (language : String) : Except Failure Bool :=
  let n := ((w.workspace.session? language).map (·.launches)).getD 0
  (w.peerFor language n).map fun
    | .scripted _ => false
    | .running _ => true

def peer? (w : World) (language : String) (c : Nat) : Option Peer :=
  w.peers.lookup (language, c)

def moment (w : World) (language : String) : Session.Moment where
  now := w.now
  launch := w.launch language
  disk := w.files.read
  exited := fun c => ((w.peer? language c).map Peer.isOver).getD true

def setPeer (w : World) (language : String) (c : Nat) (p : Peer) : World :=
  { w with peers := w.peers.map fun (key, q) => (key, if key = (language, c) then p else q) }

def adopt (w : World) : World :=
  w.workspace.sessions.foldl (fun w (language, s) =>
    (List.range s.connections.length).foldl (fun w c =>
      if (w.peer? language c).isSome then w
      else match w.peerFor language (s.launches - 1) with
        | .ok p => { w with peers := w.peers ++ [((language, c), p)] }
        | .error _ => w) w) w

def wake (w : World) : World :=
  let ready := w.workspace.sessions.flatMap fun (language, s) =>
    ((List.range s.tasks.length).filter fun i => s.isReady (w.moment language) i).map (language, ·)
  { w with woken := w.woken ++ ready.filter fun k => !w.woken.contains k }

def setWorkspace (w : World) (workspace : Workspace) : World :=
  ({ w with workspace }.adopt).wake

def resume (w : World) (language : String) (i : Nat) : World :=
  w.setWorkspace (w.workspace.resume (w.moment language) language i)

/-- Runs the operations that can go on, and those that can because of them. -/
def runWoken (w : World) : Nat → World
  | 0 => w
  | fuel + 1 =>
    match w.woken with
    | [] => w
    | (language, i) :: rest => runWoken ({ w with woken := rest }.resume language i) fuel

def holds (part : List Char) : List Char → Bool
  | [] => part.isEmpty
  | c :: cs => part.isPrefixOf (c :: cs) || holds part cs

def publish (w : World) (p : Publication) : World :=
  match w.receiver with
  | none => w
  | some r =>
    if (r.breaksAt.map fun t => holds t.toList p.uri.toList).getD false then w
    else { w with events := w.events ++ [⟨r.tag, p⟩] }

/-- Reads all that has arrived on a connection. The flag says whether there was anything. -/
def readAll (w : World) (language : String) (c : Nat) (any : Bool) : Nat → Bool × World
  | 0 => (any, w)
  | fuel + 1 =>
    match (w.workspace.session? language).bind (·.readNext? c) with
    | none => (any, w)
    | some (s, published) =>
      let w := { w with workspace := w.workspace.setSession language s }.wake
      readAll ((published.map w.publish).getD w) language c true fuel

def connections (w : World) : List (String × Nat) :=
  w.workspace.sessions.flatMap fun (language, s) =>
    (List.range s.connections.length).map (language, ·)

def exchange (w : World) (language : String) (c : Nat) : Bool × World :=
  match w.workspace.session? language, w.peer? language c with
  | some s, some peer =>
    match s.connection? c with
    | some k =>
      let (moved, link, peer) := peer.exchange w.now k.killed k.link
      let w := { w with workspace := w.workspace.setSession language (s.setLink c link).tidy }
      (moved, w.setPeer language c peer)
    | none => (false, w)
  | _, _ => (false, w)

def arrived (w : World) (language : String) (c : Nat) : Nat :=
  (((w.workspace.session? language).bind (·.connection? c)).map (·.link.input.length)).getD 0

/-- One round: messages go out, servers answer, answers are read, and operations go on. The flag says
whether anything happened. -/
def round (w : World) : Bool × World :=
  let (moved, w) := w.connections.foldl (fun (moved, w) (language, c) =>
    let (m, w) := w.exchange language c
    (moved || m, w)) (false, w)
  let (moved, w) := w.connections.foldl (fun (moved, w) (language, c) =>
    w.readAll language c moved (w.arrived language c + 2)) (moved, w.wake)
  (moved || !w.woken.isEmpty, w.runWoken 10000)

def firstReading? (w : World) : Option (String × Nat) :=
  w.workspace.sessions.findSome? fun (language, s) =>
    ((List.range s.tasks.length).find? fun i =>
      match s.stage? i with
      | some (.reading _ _) => true
      | _ => false).map (language, ·)

/-- Something happens that needs no time: a round, or else a file has been read. -/
def proceed? (w : World) : Option World :=
  let (moved, w) := w.round
  if moved then some w
  else (w.firstReading?).map fun (language, i) => w.resume language i

def settle (w : World) : Nat → World
  | 0 => w
  | fuel + 1 =>
    match w.proceed? with
    | some w => settle w fuel
    | none => w

/-- More than happens in any rehearsal at one time. -/
def rounds : Nat := 100000

def settled (w : World) : World :=
  w.settle rounds

def deadline? (w : World) : Option Nat :=
  (w.workspace.sessions.flatMap (fun (_, s) =>
    (List.range s.tasks.length).filterMap s.deadline?) ++
      w.peers.filterMap fun (_, p) => p.deadline?).min?

def setNow (w : World) (now : Nat) : World :=
  { w with now := max w.now now }.wake

def passUntil (w : World) (target : Nat) : Nat → World
  | 0 => w.setNow target
  | fuel + 1 =>
    match w.deadline? with
    | some d => if d ≤ target then passUntil (w.setNow d).settled target fuel else w.setNow target
    | none => w.setNow target

def advance (w : World) (ms : Nat) : World :=
  (w.settled.passUntil (w.now + ms) rounds).settled

def finished? (w : World) (j : Nat) : Option (Except Failure Answer) :=
  match w.jobs[j]? with
  | some (.answered r) => some r
  | some (.running parts) => do
    let results ← parts.mapM fun (language, i) => w.workspace.result? language i
    match results with
    | [r] => some r
    | _ => some (.ok .nothing)
  | _ => none

/-- Waits for a job. When nothing else can happen, time passes up to the next deadline. -/
def await (w : World) (j : Nat) : Nat → World
  | 0 => w
  | fuel + 1 =>
    if (w.finished? j).isSome then w
    else match w.proceed? with
      | some w => await w j fuel
      | none =>
        match w.deadline? with
        | some d => await (w.setNow d) j fuel
        | none => w

def statusOf? (w : World) (language : String) : Option String :=
  (w.workspace.statuses.lookup language).map Status.label

/-- Waits until a language has come to a state, at most up to `limit`. The flag says whether it has. -/
def watch (w : World) (language label : String) (limit : Nat) : Nat → Bool × World
  | 0 => (false, w)
  | fuel + 1 =>
    if w.statusOf? language = some label then (true, w)
    else match w.proceed? with
      | some w => watch w language label limit fuel
      | none =>
        match w.deadline? with
        | some d =>
          if d ≤ limit then watch (w.setNow d) language label limit fuel
          else (false, w.setNow limit)
        | none => (false, w.setNow limit)

def watchTime : Nat := 2500

inductive Shown where
  | nothing
  | started
  | result (r : Except Failure Answer)
  | gone
  | pending
  | cancelled (running : Bool)
  | language (l : Option String)
  | root (p : Path)
  | text (s : String)
  | watched (reached : Bool)

inductive Step where
  | request (path : Path) (r : Workspace.Request) (name : Option String)
  | change (path : Path) (text : String)
  | close (path : Path)
  | shutdown (restartable : Bool) (name : Option String)
  | language (path : Path)
  | root
  | describe
  | statuses
  | advance (ms : Nat)
  | join (name : String)
  | poll (name : String)
  | cancel (name : String)
  | server (language : String) (launch : Option Nat) (r : Reaction)
  | receive (r : Receiver)
  | watch (language label : String)

def place? (w : World) (name : String) : Option Nat := do
  let j ← w.named.lookup name
  match w.jobs[j]? with
  | none | some .collected => none
  | some _ => some j

def collect (w : World) (j : Nat) : Shown × World :=
  match w.finished? j with
  | some r => (.result r, { w with jobs := w.jobs.set j .collected })
  | none => (.pending, w)

/-- Runs a job in the background if it has a name, and to its end otherwise. -/
def runJob (w : World) (job : Job) (name : Option String) : Shown × World :=
  let j := w.jobs.length
  let w := { w with jobs := w.jobs ++ [job] }
  match name with
  | some name => (.started, { w with named := (name, j) :: w.named })
  | none => (w.await j rounds).collect j

def cancelParts (w : World) (parts : List (String × Nat)) : World :=
  w.setWorkspace (parts.foldl (fun ws (language, i) => ws.cancel language i) w.workspace)

def actAlone (w : World) (language : String) (launch : Option Nat) (r : Reaction) : World :=
  match w.workspace.session? language with
  | none => w
  | some s =>
    let c := launch.getD (s.connections.length - 1)
    match s.connection? c, w.peer? language c with
    | some k, some peer =>
      let (link, peer) := peer.actAlone k.link r
      { w with workspace := w.workspace.setSession language (s.setLink c link) }.setPeer
        language c peer
    | _, _ => w

def run (w : World) : Step → Shown × World
  | .request path r name =>
    let (begun, ws) := w.workspace.begin w.moment path r
    let job := match begun with
      | .answered a => .answered (.ok a)
      | .running language i => .running [(language, i)]
    (w.setWorkspace ws).runJob job name
  | .change path text =>
    let (r, ws) := w.workspace.change path text
    (.result (r.map fun _ => .nothing), w.setWorkspace ws)
  | .close path => (.nothing, w.setWorkspace (w.workspace.close path))
  | .shutdown restartable name =>
    let (parts, ws) := w.workspace.shutdown w.moment restartable
    (w.setWorkspace ws).runJob (.running parts) name
  | .language path => (.language (w.workspace.languageForPath? path), w)
  | .root => (.root w.workspace.root, w)
  | .describe => (.text w.workspace.describe, w)
  | .statuses => (.nothing, w)
  | .advance ms => (.nothing, w.advance ms)
  | .join name =>
    match w.place? name with
    | none => (.gone, w)
    | some j => (w.await j rounds).collect j
  | .poll name =>
    match w.place? name with
    | none => (.gone, w)
    | some j => w.collect j
  | .cancel name =>
    match w.place? name with
    | none => (.gone, w)
    | some j =>
      let w' := { w with jobs := w.jobs.set j .collected }
      match w.jobs[j]?, w.finished? j with
      | some (.running parts), none => (.cancelled true, w'.cancelParts parts)
      | _, _ => (.cancelled false, w')
  | .server language launch r => (.nothing, w.actAlone language launch r)
  | .receive r => (.nothing, { w with receiver := some r })
  | .watch language label =>
    let (reached, w) := w.watch language label (w.now + watchTime) rounds
    (.watched reached, w)

/-- Runs a step and then lets everything come to rest, before and after a millisecond, if the world
is such. -/
def step (w : World) (s : Step) : Shown × World :=
  let (shown, w) := w.run s
  if w.settles then
    let w := w.settled
    (shown, (w.setNow (w.now + 1)).settled)
  else (shown, w)

def takeLogs (w : World) : List ((String × Nat) × List Json) × World :=
  (w.peers.map fun (key, p) => (key, p.takeLog.1),
    { w with peers := w.peers.map fun (key, p) => (key, p.takeLog.2) })

def takeEvents (w : World) : List Event × World :=
  (w.events, { w with events := [] })

end World
end LanguageClient.Rehearsal
