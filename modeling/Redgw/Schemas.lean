import Redgw.Json
import Redgw.Lib.Dict

/-! # Request bodies

The bodies of the data plane and the checks of their schemas. A body that fails its check is answered
with 422 before any handler runs. -/

namespace Redgw

/-- `Field(None, ge=0, le=9_999_999_999)` -/
def ttlInRange : Option Int → Bool
  | none => true
  | some t => decide (0 ≤ t ∧ t ≤ 9999999999)

/-- `min_length=1` of a text. -/
def nonEmpty (s : String) : Bool := decide (1 ≤ s.length)

/-- `min_length=1, max_length=100` of a batch. -/
def batchSize (n : Nat) : Bool := decide (1 ≤ n ∧ n ≤ 100)

inductive Side
  | left
  | right
deriving DecidableEq

structure TtlSetRequest where
  ttl : Int

def TtlSetRequest.valid (b : TtlSetRequest) : Bool := ttlInRange (some b.ttl)

/-! ### Strings -/

structure KvSetRequest where
  value : String
  ttl : Option Int

def KvSetRequest.valid (b : KvSetRequest) : Bool := nonEmpty b.value && ttlInRange b.ttl

structure KvIncrRequest where
  delta : Int := 1

def KvIncrRequest.valid (b : KvIncrRequest) : Bool :=
  decide (-9223372036854775808 ≤ b.delta ∧ b.delta ≤ 9223372036854775807)

/-- The batch reads of strings, hashes and sets take the same body. -/
structure BatchGetRequest where
  keys : List String

def BatchGetRequest.valid (b : BatchGetRequest) : Bool := batchSize b.keys.length

structure KvBatchSetRequest where
  items : Dict String
  ttl : Option Int

def KvBatchSetRequest.valid (b : KvBatchSetRequest) : Bool :=
  batchSize b.items.length && b.items.items.all (fun x => nonEmpty x.2) && ttlInRange b.ttl

/-! ### Hashes -/

structure MapSetRequest where
  fields : Dict String
  ttl : Option Int

def MapSetRequest.valid (b : MapSetRequest) : Bool :=
  decide (1 ≤ b.fields.length) && b.fields.items.all (fun x => nonEmpty x.2) && ttlInRange b.ttl

structure MapFieldSetRequest where
  value : String
  ttl : Option Int

def MapFieldSetRequest.valid (b : MapFieldSetRequest) : Bool := nonEmpty b.value && ttlInRange b.ttl

structure MapBatchSetRequest where
  items : Dict (Dict String)
  ttl : Option Int

def MapBatchSetRequest.valid (b : MapBatchSetRequest) : Bool :=
  batchSize b.items.length && ttlInRange b.ttl &&
    b.items.items.all fun x => decide (1 ≤ x.2.length) && x.2.items.all fun y => nonEmpty y.2

/-! ### Lists -/

structure QueuePushRequest where
  value : String
  direction : Side := .right
  ttl : Option Int

def QueuePushRequest.valid (b : QueuePushRequest) : Bool := nonEmpty b.value && ttlInRange b.ttl

structure QueueBatchPushRequest where
  values : List String
  direction : Side := .right
  ttl : Option Int

def QueueBatchPushRequest.valid (b : QueueBatchPushRequest) : Bool :=
  batchSize b.values.length && b.values.all nonEmpty && ttlInRange b.ttl

structure QueueTrimRequest where
  keep : Int

def QueueTrimRequest.valid (b : QueueTrimRequest) : Bool := decide (1 ≤ b.keep)

/-! ### Sets -/

structure GroupAddRequest where
  members : List String
  ttl : Option Int

def GroupAddRequest.valid (b : GroupAddRequest) : Bool := decide (1 ≤ b.members.length) && ttlInRange b.ttl

structure GroupBatchAddRequest where
  items : Dict (List String)
  ttl : Option Int

def GroupBatchAddRequest.valid (b : GroupBatchAddRequest) : Bool :=
  batchSize b.items.length && ttlInRange b.ttl &&
    b.items.items.all fun x => decide (1 ≤ x.2.length) && x.2.all nonEmpty

structure GroupOpsRequest where
  keys : List String

def GroupOpsRequest.valid (b : GroupOpsRequest) : Bool := decide (2 ≤ b.keys.length ∧ b.keys.length ≤ 100)

/-! ### Sorted sets -/

structure RankAddRequest where
  member : String
  score : Score
  ttl : Option Int

def RankAddRequest.valid (b : RankAddRequest) : Bool := nonEmpty b.member && ttlInRange b.ttl

structure RankBatchAddRequest where
  members : List (String × Score)
  ttl : Option Int

def RankBatchAddRequest.valid (b : RankBatchAddRequest) : Bool :=
  batchSize b.members.length && b.members.all (fun x => nonEmpty x.1) && ttlInRange b.ttl

structure RankBatchGetRequest where
  keys : List String
  start : Int := 0
  stop : Int := -1
  reverse : Bool := false

def RankBatchGetRequest.valid (b : RankBatchGetRequest) : Bool := batchSize b.keys.length

structure RankIncrRequest where
  member : String
  delta : Score

def RankIncrRequest.valid (b : RankIncrRequest) : Bool := nonEmpty b.member

/-! ### Streams and channels -/

structure EventPublishRequest where
  data : Dict String

def EventPublishRequest.valid (b : EventPublishRequest) : Bool := decide (1 ≤ b.data.length)

structure EventBatchPublishRequest where
  events : List (Dict String)

def EventBatchPublishRequest.valid (b : EventBatchPublishRequest) : Bool :=
  batchSize b.events.length && b.events.all fun e => decide (1 ≤ e.length)

structure EventGroupCreateRequest where
  group : String

def EventGroupCreateRequest.valid (b : EventGroupCreateRequest) : Bool := nonEmpty b.group

structure EventAckRequest where
  ids : List String

def EventAckRequest.valid (b : EventAckRequest) : Bool := decide (1 ≤ b.ids.length)

/-- `Query(.., ge=1, le=1000)` of the stream reads. -/
def countInRange (count : Int) : Bool := decide (1 ≤ count ∧ count ≤ 1000)

structure PublishRequest where
  message : String

def PublishRequest.valid (b : PublishRequest) : Bool := nonEmpty b.message

end Redgw
