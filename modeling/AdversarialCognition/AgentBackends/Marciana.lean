import AdversarialCognition.Authenticated.Backend
import AdversarialCognition.Harness.Tools
import AdversarialCognition.Lib.IsoDate

/-!
# The reference as an agent's memory

`adapters/agent_backends/marciana_agent.py`: the authenticated backend behind the memory tools of
the harness. A session is a did with the credential that opened it, and each tool call
authenticates again, under a nonce nobody has used.

An operation can raise at three places: where a text is digested, where a date is read, and where
the authenticated backend raises. All three are kept apart in `AgentExn`, and an operation that
raises before it reaches the backend has taken no nonce.

## A machine

`marcianaAgent` has the operations as steps, so that what holds after every run can be said as in
the other layers, of `marcianaAgent.after ops`. The opening of a session is no step: it reads the
registry and changes nothing. Its result is part of the laws about sessions, through
`openSession`.

The layers underneath are used as they are, with their own results: a step that asks something is
one request of the authenticated backend, and one call of the core or none.
`AgentBackends/Visible.lean` has the inversion that says so, and the invariant of the runs.
-/

namespace AdversarialCognition

open Py Py.Str

/-- What a tool of this backend can raise. -/
inductive AgentExn
  | unicodeEncodeError
  /-- `date.fromisoformat` on what is no date -/
  | valueError
  | backend (e : AuthExn)
  deriving DecidableEq

/-- What `open_session` hands out: a did and the secret it presented. -/
abbrev AgentSession := Str × Str

abbrev ToolReply := Except AgentExn ToolResult

/-- `_parse_date`. An empty text is no date, and a text that is none otherwise raises. -/
def parseDate (value : Option Str) : Except AgentExn (Option Date) :=
  match value with
  | none => .ok none
  | some s =>
    if s = [] then .ok none
    else
      match Date.fromisoformat s with
      | some d => .ok (some d)
      | none => .error .valueError

/-- The backend and the number of the last nonce. -/
structure MarcianaAgentBackend where
  backend : AuthenticatedBackend
  nonce : ℕ

namespace MarcianaAgentBackend

theorem defaultFrom_ok : (1 ≤ 2026 ∧ 2026 ≤ 9999) ∧ (1 ≤ 1 ∧ 1 ≤ 12) ∧
    1 ≤ 1 ∧ 1 ≤ daysInMonth 2026 1 := by decide

theorem defaultDate_ok : (1 ≤ 2026 ∧ 2026 ≤ 9999) ∧ (1 ≤ 2 ∧ 2 ≤ 12) ∧
    1 ≤ 1 ∧ 1 ≤ daysInMonth 2026 2 := by decide

/-- `date(2026, 1, 1)`, from when a memory is valid unless it says otherwise. -/
def defaultFrom : Date := Date.lit 2026 1 1 defaultFrom_ok

/-- `date(2026, 2, 1)`, the day a read is about unless it says otherwise. -/
def defaultDate : Date := Date.lit 2026 2 1 defaultDate_ok

/-- What every tool answers without a session. -/
def noSession : ToolResult := { ok := false, error := lit "no session" }

/-- The did that a principal's name stands for. -/
def agentDid (name : Str) : Str := lit "did:key:" ++ name

/-- The nonce of the `n`-th call. -/
def agentNonce (n : ℕ) : Str := lit "agent-nonce-" ++ ofNat n

/-- `_next_nonce` -/
def nextNonce (m : MarcianaAgentBackend) : Str × MarcianaAgentBackend :=
  (agentNonce (m.nonce + 1), { m with nonce := m.nonce + 1 })

variable [Runtime] [CredentialScheme]

/-- `__init__` -/
def new : MarcianaAgentBackend where
  backend := AuthenticatedBackend.new
  nonce := 0

/-- `reset`: all is made anew, the counter included. -/
def reset (_ : MarcianaAgentBackend) : MarcianaAgentBackend := new

/-- `restart`: the counter goes on from where it was. -/
def restart (m : MarcianaAgentBackend) : MarcianaAgentBackend :=
  { m with backend := m.backend.restart }

/-- `open_session`. The session is not what authentication returned but what was presented. -/
def openSession (m : MarcianaAgentBackend) (credential : Credential) :
    Except AgentExn (Option AgentSession) :=
  match m.backend.authenticate (agentDid credential.name) credential.secret with
  | .error e => .error (.backend e)
  | .ok none => .ok none
  | .ok (some _) => .ok (some (agentDid credential.name, credential.secret))

/-- The `Memory` that `write` builds. A private memory is of sensitivity 3 and any other of 1, and
    its source is the writer's did. -/
def agentMemory (did memoryId text : Str) (validFrom validUntil : Option Str)
    (isPrivate : Bool) (derivedFrom : List Str) : Except AgentExn Memory := do
  let sourceDigest ← match digest text with
    | .ok sourceDigest => .ok sourceDigest
    | .error _ => .error .unicodeEncodeError
  let start ← parseDate validFrom
  let stop ← parseDate validUntil
  return {
    memoryId := memoryId
    text := text
    source := lit "agent:" ++ did
    sourceDigest := sourceDigest
    sensitivity := if isPrivate then 3 else 1
    validFrom := start.getD defaultFrom
    validUntil := stop
    derivedFrom := derivedFrom }

/-- `write`. The memory is built before a nonce is taken. -/
def write (m : MarcianaAgentBackend) (session : Option AgentSession) (memoryId text : Str)
    (validFrom validUntil : Option Str) (isPrivate : Bool) (derivedFrom : List Str) :
    ToolReply × MarcianaAgentBackend :=
  match session with
  | none => (.ok noSession, m)
  | some (did, presented) =>
    match agentMemory did memoryId text validFrom validUntil isPrivate derivedFrom with
    | .error e => (.error e, m)
    | .ok memory =>
      let (nonce, m) := m.nextNonce
      let (reply, backend) := m.backend.remember memory did presented nonce
      let m := { m with backend := backend }
      match reply with
      | .error e => (.error (.backend e), m)
      | .ok decision => (.ok { ok := decision.allowed, error := decision.error }, m)

/-- The row of one recalled id, if the id is a key of the store. -/
def resultRow (memories : Dict Str Memory) (memoryId : Str) : Option (List (Str × Json)) :=
  (memories.get? memoryId).map fun memory =>
    [(lit "id", .str memoryId), (lit "text", .str (memory.text.take 200))]

/-- `read`. The texts of the results are taken from the store of the core, by id and whatever
    their state, and cut to 200 characters. -/
def read (m : MarcianaAgentBackend) (session : Option AgentSession) (query : Str)
    (asOf : Option Str) : ToolReply × MarcianaAgentBackend :=
  match session with
  | none => (.ok noSession, m)
  | some (did, presented) =>
    match parseDate asOf with
    | .error e => (.error e, m)
    | .ok day =>
      let (nonce, m) := m.nextNonce
      let (reply, backend) :=
        m.backend.recall query did presented (day.getD defaultDate) nonce
      let m := { m with backend := backend }
      match reply with
      | .error e => (.error (.backend e), m)
      | .ok decision =>
        if !decision.allowed then
          let error := if decision.error = [] then lit "denied" else decision.error
          (.ok { ok := false, error := error }, m)
        else
          (.ok { results := decision.ids.filterMap (resultRow m.backend.core.memories),
                 ids := decision.ids }, m)

/-- `delete`, which forgets. -/
def delete (m : MarcianaAgentBackend) (session : Option AgentSession) (memoryId : Str) :
    ToolReply × MarcianaAgentBackend :=
  match session with
  | none => (.ok noSession, m)
  | some (did, presented) =>
    let (nonce, m) := m.nextNonce
    let (reply, backend) := m.backend.forget memoryId did presented nonce
    let m := { m with backend := backend }
    match reply with
    | .error e => (.error (.backend e), m)
    | .ok decision =>
      (.ok { ok := decision.allowed, ids := decision.ids, error := decision.error }, m)

/-- `list_ids`: a recall of the empty query on the default day. Whether it was allowed is not
    looked at. -/
def listIds (m : MarcianaAgentBackend) (session : Option AgentSession) :
    ToolReply × MarcianaAgentBackend :=
  match session with
  | none => (.ok noSession, m)
  | some (did, presented) =>
    let (nonce, m) := m.nextNonce
    let (reply, backend) := m.backend.recall [] did presented defaultDate nonce
    let m := { m with backend := backend }
    match reply with
    | .error e => (.error (.backend e), m)
    | .ok decision => (.ok { ids := decision.ids }, m)

end MarcianaAgentBackend

/-- What the harness asks of the backend, session opening aside, which changes nothing. -/
inductive AgentOp
  | reset
  | restart
  | write (session : Option AgentSession) (memoryId text : Str) (validFrom validUntil : Option Str)
      (isPrivate : Bool) (derivedFrom : List Str)
  | read (session : Option AgentSession) (query : Str) (asOf : Option Str)
  | delete (session : Option AgentSession) (memoryId : Str)
  | listIds (session : Option AgentSession)

section Model

variable [Runtime] [CredentialScheme]

/-- The backend as a machine: its reachable states are `marcianaAgent.after ops`. -/
def marcianaAgent : Machine MarcianaAgentBackend AgentOp (Option ToolReply) where
  init := MarcianaAgentBackend.new
  step m
    | .reset => (none, m.reset)
    | .restart => (none, m.restart)
    | .write session memoryId text validFrom validUntil isPrivate derivedFrom =>
        let (reply, m) := m.write session memoryId text validFrom validUntil isPrivate derivedFrom
        (some reply, m)
    | .read session query asOf =>
        let (reply, m) := m.read session query asOf
        (some reply, m)
    | .delete session memoryId =>
        let (reply, m) := m.delete session memoryId
        (some reply, m)
    | .listIds session =>
        let (reply, m) := m.listIds session
        (some reply, m)

end Model

end AdversarialCognition
