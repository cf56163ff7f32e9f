import MyCursor.Rules
import MyCursor.Transitions

/-!
# User rules, online and offline

`cursor/services/knowledge`: every request first replays the journal and then goes to
upstream; where that does not answer, the local rules do and the change is journalled.
A rule that is added offline has a local id until its addition is replayed.
-/
namespace MyCursor.Knowledge
open Rules Transitions
set_option linter.unusedSectionVars false

structure Rule where
  knowledge : String
  title : String
  created_at : String
  is_generated : Bool
  git_origin : String
deriving DecidableEq

/-- What one call meets: the id and the time upstream would give a new rule, and the
    rules it would list. -/
structure Call where
  reachable : Bool
  id : String
  created_at : String
  shown : List String
deriving DecidableEq

structure KnowledgeBaseAddRequest where
  knowledge : String
  title : String
  git_origin : String
deriving DecidableEq
structure KnowledgeBaseAddResponse where
  success : Bool
  id : String
deriving DecidableEq
structure KnowledgeBaseListRequest where
  limit : Option Int
  git_origin : Option String
deriving DecidableEq
structure KnowledgeBaseListItem where
  id : String
  knowledge : String
  title : String
  created_at : String
  is_generated : Bool
deriving DecidableEq
structure KnowledgeBaseListResponse where
  success : Bool
  all_results : List KnowledgeBaseListItem
deriving DecidableEq
structure KnowledgeBaseUpdateRequest where
  id : String
  knowledge : String
  title : String
deriving DecidableEq

/-- The service while it handles a request: what the calls that are left meet, and the
    additions that were replayed, as `replay` reports them. -/
structure Session where
  store : RuleStore
  upstream : Table Rule
  calls : List Call
  replaced : List (String × String)
deriving DecidableEq

def Session.next (s : Session) : Session × Option Call :=
  ({ s with calls := s.calls.tail },s.calls.head?.filter (·.reachable))
/-- The next call is answered, unless upstream is not reached: then, and where it
    answers with the status of an error, there is no reply. -/
def Session.meet {α : Type} (s : Session) (answer : Session → Call → Session × Option α) : Session × Option α :=
  match s.next with
  | (s,some call) => answer s call
  | (s,none) => (s,none)
def Session.sendAdd (s : Session) (message : KnowledgeBaseAddRequest) : Session × Option KnowledgeBaseAddResponse :=
  s.meet fun s call =>
    let rule : Rule := ⟨message.knowledge,message.title,call.created_at,false,message.git_origin⟩
    ({ s with upstream := s.upstream.insert call.id rule },some ⟨true,call.id⟩)
def Session.sendUpdate (s : Session) (message : KnowledgeBaseUpdateRequest) : Session × Option Bool :=
  s.meet fun s _ =>
    match s.upstream.lookup message.id with
    | some rule =>
      let rule := { rule with knowledge := message.knowledge, title := message.title }
      ({ s with upstream := s.upstream.insert message.id rule },some true)
    | none => (s,none)
def Session.sendRemove (s : Session) (id : String) : Session × Option Bool :=
  s.meet fun s _ =>
    match s.upstream.lookup id with
    | some _ => ({ s with upstream := s.upstream.erase id },some true)
    | none => (s,none)
def itemOf (upstream : Table Rule) (id : String) : Option KnowledgeBaseListItem :=
  (upstream.lookup id).map fun rule => ⟨id,rule.knowledge,rule.title,rule.created_at,rule.is_generated⟩
def Session.sendList (s : Session) : Session × Option KnowledgeBaseListResponse :=
  s.meet fun s call => (s,some ⟨true,call.shown.filterMap (itemOf s.upstream)⟩)

section Service
variable [RuleFiles]

def Session.pop (s : Session) : Session := { s with store := s.store.pop_journal }
def replay_add (s : Session) (id : String) : Session × Except Error Bool :=
  match s.store.get id with
  | .error e => (s,.error e)
  | .ok none => (s.pop,.ok true)
  | .ok (some record) =>
    match s.sendAdd ⟨record.knowledge,record.title,record.git_origin⟩ with
    | (s,none) => (s,.ok false)
    | (s,some reply) =>
      if !reply.success || reply.id = "" then (s.pop,.ok true)
      else
        match s.store.promote id reply.id with
        | .error e => (s,.error e)
        | .ok store => ({ s with store := store.pop_journal, replaced := s.replaced ++ [(id,reply.id)] },.ok true)
def replay_update (s : Session) (id : String) : Session × Except Error Bool :=
  match s.store.get id with
  | .error e => (s,.error e)
  | .ok none => (s.pop,.ok true)
  | .ok (some record) =>
    match s.sendUpdate ⟨id,record.knowledge,record.title⟩ with
    | (s,none) => (s,.ok false)
    | (s,some _) => (s.pop,.ok true)
def replay_remove (s : Session) (id : String) : Session × Except Error Bool :=
  match s.sendRemove id with
  | (s,none) => (s,.ok false)
  | (s,some _) => (s.pop,.ok true)
def replay_entry (s : Session) (entry : JournalEntry) : Session × Except Error Bool :=
  match entry.op with
  | .Add => replay_add s entry.id
  | .Update => replay_update s entry.id
  | .Remove => replay_remove s entry.id
def replayLoop : Nat → Session → Session × Except Error Bool
  | 0, s => (s,.ok true)
  | fuel + 1, s =>
    match s.store.journal_front with
    | none => (s,.ok true)
    | some entry =>
      match replay_entry s entry with
      | (s,.ok true) => replayLoop fuel s
      | (s,result) => (s,result)
def replay (s : Session) : Session × Except Error Bool := replayLoop s.store.journal.length s

def mirror (store : RuleStore) (items : List KnowledgeBaseListItem) : RuleStore × Except Error Unit :=
  store.replace_all (items.map fun item => ⟨item.id,item.knowledge,item.title,item.created_at,item.is_generated,""⟩)

/-- The answer of upstream, when the journal was replayed. -/
def forwarded {α : Type} (send : Session → Session × Option α) (s : Session) : Session × Except Error (Option α) :=
  match replay s with
  | (s,.error e) => (s,.error e)
  | (s,.ok false) => (s,.ok none)
  | (s,.ok true) =>
    let (s,reply) := send s
    (s,.ok reply)

/-- `uuid` and `now` are what the service would take for a local rule. -/
def addUpstream (s : Session) (message : KnowledgeBaseAddRequest) (now : String) (reply : KnowledgeBaseAddResponse) :
    Session × Except Error KnowledgeBaseAddResponse :=
  if reply.success && reply.id ≠ "" then
    match s.store.upsert ⟨reply.id,message.knowledge,message.title,now,false,message.git_origin⟩ with
    | .error e => (s,.error e)
    | .ok store => ({ s with store },.ok reply)
  else (s,.ok reply)
def addLocal (s : Session) (message : KnowledgeBaseAddRequest) (now uuid : String) : Session × Except Error KnowledgeBaseAddResponse :=
  let id := LOCAL_ID_PREFIX ++ uuid
  match s.store.upsert ⟨id,message.knowledge,message.title,now,false,message.git_origin⟩ with
  | .error e => (s,.error e)
  | .ok store => ({ s with store := store.record_add id },.ok ⟨true,id⟩)
def add (s : Session) (message : KnowledgeBaseAddRequest) (now uuid : String) : Session × Except Error KnowledgeBaseAddResponse :=
  match forwarded (·.sendAdd message) s with
  | (s,.error e) => (s,.error e)
  | (s,.ok (some reply)) => addUpstream s message now reply
  | (s,.ok none) => addLocal s message now uuid

def listUpstream (s : Session) (message : KnowledgeBaseListRequest) (reply : KnowledgeBaseListResponse) :
    Session × Except Error KnowledgeBaseListResponse :=
  if reply.success && message.git_origin.getD "" = "" then
    match mirror s.store reply.all_results with
    | (store,.error e) => ({ s with store },.error e)
    | (store,.ok _) => ({ s with store },.ok reply)
  else (s,.ok reply)
def listLocal (s : Session) (message : KnowledgeBaseListRequest) : KnowledgeBaseListResponse :=
  let git_origin := message.git_origin.getD ""
  let records := s.store.list.filter fun record => git_origin = "" || record.git_origin = git_origin
  let records := match message.limit with
    | some limit => if 0 ≤ limit then records.take limit.toNat else records
    | none => records
  ⟨true,records.map fun record => ⟨record.id,record.knowledge,record.title,record.created_at,record.is_generated⟩⟩
def list (s : Session) (message : KnowledgeBaseListRequest) : Session × Except Error KnowledgeBaseListResponse :=
  match forwarded (·.sendList) s with
  | (s,.error e) => (s,.error e)
  | (s,.ok (some reply)) => listUpstream s message reply
  | (s,.ok none) => (s,.ok (listLocal s message))

def updateUpstream (s : Session) (message : KnowledgeBaseUpdateRequest) (now : String) (success : Bool) : Session × Except Error Bool :=
  if success then
    match s.store.get message.id with
    | .error e => (s,.error e)
    | .ok existing =>
      match s.store.upsert
          { id := message.id, knowledge := message.knowledge, title := message.title
            created_at := (existing.map (·.created_at)).getD now
            is_generated := (existing.map (·.is_generated)).getD false
            git_origin := (existing.map (·.git_origin)).getD "" } with
      | .error e => (s,.error e)
      | .ok store => ({ s with store },.ok success)
  else (s,.ok success)
def updateLocal (s : Session) (message : KnowledgeBaseUpdateRequest) : Session × Except Error Bool :=
  match s.store.get message.id with
  | .error e => (s,.error e)
  | .ok none => (s,.ok false)
  | .ok (some record) =>
    match s.store.upsert { record with knowledge := message.knowledge, title := message.title } with
    | .error e => (s,.error e)
    | .ok store => ({ s with store := store.record_update message.id },.ok true)
def update (s : Session) (message : KnowledgeBaseUpdateRequest) (now : String) : Session × Except Error Bool :=
  match forwarded (·.sendUpdate message) s with
  | (s,.error e) => (s,.error e)
  | (s,.ok (some success)) => updateUpstream s message now success
  | (s,.ok none) => updateLocal s message

def removeUpstream (s : Session) (id : String) (success : Bool) : Session × Except Error Bool :=
  if success then
    match s.store.remove id with
    | .error e => (s,.error e)
    | .ok store => ({ s with store },.ok success)
  else (s,.ok success)
def removeLocal (s : Session) (id : String) : Session × Except Error Bool :=
  match s.store.remove id with
  | .error e => (s,.error e)
  | .ok store => ({ s with store := store.record_remove id },.ok true)
def remove (s : Session) (id : String) : Session × Except Error Bool :=
  match forwarded (·.sendRemove id) s with
  | (s,.error e) => (s,.error e)
  | (s,.ok (some success)) => removeUpstream s id success
  | (s,.ok none) => removeLocal s id

end Service

structure Said where
  knowledge : String
  title : String
  git_origin : String
deriving DecidableEq
def Rule.said (rule : Rule) : Said := ⟨rule.knowledge,rule.title,rule.git_origin⟩

/-- The changes that were acknowledged, and the local ids that were replaced. -/
inductive Change where
  | Added (id : String) (said : Said)
  | Updated (id knowledge title : String)
  | Removed (id : String)
  | Replaced (old_id new_id : String)
deriving DecidableEq

/-- The rules under the ids that they have now, what local ids were replaced by, and
    all ids that rules have had. -/
structure Ledger where
  rules : Table Said
  replaced : Table String
  given : List String
deriving DecidableEq

def Ledger.named (ledger : Ledger) (id : String) : String := (ledger.replaced.lookup id).getD id
def Ledger.apply (ledger : Ledger) : Change → Ledger
  | .Added id said => { ledger with rules := ledger.rules.insert id said, given := id :: ledger.given }
  | .Updated id knowledge title =>
    match ledger.rules.lookup (ledger.named id) with
    | some said => { ledger with rules := ledger.rules.insert (ledger.named id) { said with knowledge, title } }
    | none => ledger
  | .Removed id => { ledger with rules := ledger.rules.erase (ledger.named id) }
  | .Replaced old_id new_id =>
    { rules := match ledger.rules.lookup old_id with
        | some said => (ledger.rules.erase old_id).insert new_id said
        | none => ledger.rules
      replaced := ledger.replaced.insert old_id new_id
      given := new_id :: ledger.given }

inductive Request where
  | Add (message : KnowledgeBaseAddRequest) (now uuid : String)
  | List (message : KnowledgeBaseListRequest)
  | Update (message : KnowledgeBaseUpdateRequest) (now : String)
  | Remove (id : String)
deriving DecidableEq

structure World where
  store : RuleStore
  upstream : Table Rule
  ledger : Ledger
deriving DecidableEq

structure Turn where
  request : Request
  calls : List Call
deriving DecidableEq

section Runs
variable [RuleFiles]

def handle (s : Session) : Request → Session × Option Change
  | .Add message now uuid =>
    match add s message now uuid with
    | (s,.ok reply) => (s,if reply.success then some (.Added reply.id ⟨message.knowledge,message.title,message.git_origin⟩) else none)
    | (s,.error _) => (s,none)
  | .List message => ((list s message).1,none)
  | .Update message now =>
    match update s message now with
    | (s,.ok success) => (s,if success then some (.Updated message.id message.knowledge message.title) else none)
    | (s,.error _) => (s,none)
  | .Remove id =>
    match remove s id with
    | (s,.ok success) => (s,if success then some (.Removed id) else none)
    | (s,.error _) => (s,none)

def World.begin (w : World) (turn : Turn) : Session := ⟨w.store,w.upstream,turn.calls,[]⟩
def Session.ledger (s : Session) (before : Ledger) : Ledger :=
  (s.replaced.map fun pair => Change.Replaced pair.1 pair.2).foldl Ledger.apply before
def step (w : World) (turn : Turn) : World :=
  let (s,change) := handle (w.begin turn) turn.request
  { store := s.store, upstream := s.upstream, ledger := change.toList.foldl Ledger.apply (s.ledger w.ledger) }

def World.replayed (w : World) (turn : Turn) : World :=
  let s := (replay (w.begin turn)).1
  { store := s.store, upstream := s.upstream, ledger := s.ledger w.ledger }

end Runs

end MyCursor.Knowledge
