import MyCursor.Binary64
import MyCursor.Keyed
import MyCursor.Message
import Mathlib.Data.String.Basic

/-!
# JSON in protobuf values

`prost_value` of `cursor/tools/codec/request.rs` and the two ways back: `prost_value` of
`cursor/compile/context.rs` and `prost_json` of `cursor/tools/tool_call_result/mod.rs`. A
protobuf value has one kind of number, the float of 64 bits, and the fields of
a struct are a map ordered by their names.
-/
namespace MyCursor.ProstValues
open Message

/-- `prost_types::Value`. -/
inductive ProstValue where
  | Unset
  | NullValue
  | NumberValue (bits : UInt64)
  | StringValue (value : String)
  | BoolValue (value : Bool)
  | StructValue (fields : List (String × ProstValue))
  | ListValue (values : List ProstValue)

/-- `Number::as_f64`. -/
def as_f64 : Number → UInt64
  | .PosInt value => Binary64.ofInt value
  | .NegInt value => Binary64.ofInt value
  | .Float bits => bits

/-- The fields collected in a `BTreeMap`. -/
def collect (fields : List (String × ProstValue)) : List (String × ProstValue) :=
  fields.foldl (fun map field => Keyed.insertOrdered field.1 field.2 map) []

mutual
/-- `prost_value` of the requests. -/
def prost_value : Value → ProstValue
  | .Null => .NullValue
  | .Bool value => .BoolValue value
  | .Number value => .NumberValue (as_f64 value)
  | .String value => .StringValue value
  | .Array items => .ListValue (prost_values items)
  | .Object members => .StructValue (collect (json_object_to_prost members))
def prost_values : List Value → List ProstValue
  | [] => []
  | item :: rest => prost_value item :: prost_values rest
def json_object_to_prost : List (String × Value) → List (String × ProstValue)
  | [] => []
  | (name,value) :: rest => (name,prost_value value) :: json_object_to_prost rest
end

mutual
/-- Both decoders, which differ in what a number becomes. -/
def decoded (number : UInt64 → Value) : ProstValue → Value
  | .Unset => .Null
  | .NullValue => .Null
  | .NumberValue bits => number bits
  | .StringValue value => .String value
  | .BoolValue value => .Bool value
  | .StructValue fields => .Object (decodedFields number fields)
  | .ListValue values => .Array (decodedValues number values)
def decodedValues (number : UInt64 → Value) : List ProstValue → List Value
  | [] => []
  | value :: rest => decoded number value :: decodedValues number rest
def decodedFields (number : UInt64 → Value) : List (String × ProstValue) → List (String × Value)
  | [] => []
  | (name,value) :: rest => (name,decoded number value) :: decodedFields number rest
end

/-- `Number::from_f64`. -/
def from_f64 (bits : UInt64) : Value := if Binary64.isFinite bits then .Number (.Float bits) else .Null
/-- `Number::from` of an `i64`. -/
def fromInteger (value : Int) : Number := if 0 ≤ value then .PosInt value.toNat else .NegInt value

def SAFE : Nat := 9007199254740991
/-- A whole number in the safe range becomes an integer. -/
def restored (bits : UInt64) : Value :=
  match Binary64.whole bits with
  | some value => if value.natAbs ≤ SAFE then .Number (fromInteger value) else from_f64 bits
  | none => from_f64 bits

/-- `prost_value` of the request context. -/
def contextValue : ProstValue → Value := decoded restored
def prost_json : ProstValue → Value := decoded from_f64

mutual
/-- `==` on JSON values: the order of the members of an object does not count. -/
def same : Value → Value → Bool
  | .Null, .Null => true
  | .Bool a, .Bool b => a = b
  | .Number a, .Number b => a = b
  | .String a, .String b => a = b
  | .Array items, .Array others => sameItems items others
  | .Object members, .Object others => members.length = others.length && sameMembers members others
  | _, _ => false
def sameItems : List Value → List Value → Bool
  | [], [] => true
  | item :: items, other :: others => same item other && sameItems items others
  | _, _ => false
def sameMembers : List (String × Value) → List (String × Value) → Bool
  | [], _ => true
  | (name,value) :: members, others =>
    (match Keyed.lookup others name with
      | some other => same value other
      | none => false) && sameMembers members others
end

mutual
/-- A property of every number and every object inside a value. -/
def Everywhere (number : Number → Prop) (object : List (String × Value) → Prop) : Value → Prop
  | .Null => True
  | .Bool _ => True
  | .Number value => number value
  | .String _ => True
  | .Array items => EveryItem number object items
  | .Object members => object members ∧ EveryMember number object members
def EveryItem (number : Number → Prop) (object : List (String × Value) → Prop) : List Value → Prop
  | [] => True
  | item :: rest => Everywhere number object item ∧ EveryItem number object rest
def EveryMember (number : Number → Prop) (object : List (String × Value) → Prop) : List (String × Value) → Prop
  | [] => True
  | (_,value) :: rest => Everywhere number object value ∧ EveryMember number object rest
end

/-- An integer of absolute value at most `2 ^ 53 - 1`. -/
def IsSafe (number : Number) : Prop := ∃ value : Int, value.natAbs ≤ SAFE ∧ number = fromInteger value

/-- A JSON value whose numbers are safe integers; no object names a member twice. -/
def Safe : Value → Prop := Everywhere IsSafe Keyed.Distinct
def Numberless : Value → Prop := Everywhere (fun _ => False) fun _ => True

/-- A property of all values, from the items of an array and the members of an object. -/
theorem induct {property : Value → Prop} (null : property .Null) (bool : ∀ value, property (.Bool value))
    (number : ∀ value, property (.Number value)) (string : ∀ value, property (.String value))
    (array : ∀ items, (∀ item ∈ items, property item) → property (.Array items))
    (object : ∀ members : List (String × Value), (∀ member ∈ members, property member.2) → property (.Object members))
    (value : Value) : property value := by
  refine @Value.rec property (fun items => ∀ item ∈ items, property item)
    (fun members => ∀ member ∈ members, property member.2) (fun member => property member.2)
    null bool number string array object ?_ ?_ ?_ ?_ ?_ value
  · intro item member
    cases member
  · intro head tail isHead isTail item member
    rcases List.mem_cons.mp member with rfl | later
    · exact isHead
    · exact isTail item later
  · intro item member
    cases member
  · intro head tail isHead isTail item member
    rcases List.mem_cons.mp member with rfl | later
    · exact isHead
    · exact isTail item later
  · intro _ _ isValue
    exact isValue

theorem prost_values_map (items : List Value) : prost_values items = items.map prost_value := by
  induction items with
  | nil => rfl
  | cons item rest ih => rw [prost_values,ih,List.map_cons]
theorem json_object_to_prost_map (members : List (String × Value)) :
    json_object_to_prost members = members.map fun member => (member.1,prost_value member.2) := by
  induction members with
  | nil => rfl
  | cons member rest ih => rw [json_object_to_prost,ih,List.map_cons]

section Decoders
variable {number : UInt64 → Value}

theorem decodedValues_map (values : List ProstValue) : decodedValues number values = values.map (decoded number) := by
  induction values with
  | nil => rfl
  | cons value rest ih => rw [decodedValues,ih,List.map_cons]
theorem decodedFields_map (fields : List (String × ProstValue)) :
    decodedFields number fields = fields.map fun field => (field.1,decoded number field.2) := by
  induction fields with
  | nil => rfl
  | cons field rest ih => rw [decodedFields,ih,List.map_cons]

end Decoders

section Predicates
variable {number : Number → Prop} {object : List (String × Value) → Prop}

theorem everyItem_iff (items : List Value) : EveryItem number object items ↔ ∀ item ∈ items, Everywhere number object item := by
  induction items with
  | nil => simp [EveryItem]
  | cons item rest ih => rw [EveryItem,ih,List.forall_mem_cons]
theorem everyMember_iff (members : List (String × Value)) :
    EveryMember number object members ↔ ∀ member ∈ members, Everywhere number object member.2 := by
  induction members with
  | nil => simp [EveryMember]
  | cons member rest ih => rw [EveryMember,ih,List.forall_mem_cons]

end Predicates

theorem sameItems_map (change : Value → Value) (items : List Value) :
    sameItems (items.map change) items = true ↔ ∀ item ∈ items, same (change item) item = true := by
  induction items with
  | nil => simp [sameItems]
  | cons item rest ih => rw [List.map_cons,sameItems,Bool.and_eq_true,ih,List.forall_mem_cons]
theorem sameMembers_iff (members others : List (String × Value)) : sameMembers members others = true ↔
    ∀ member ∈ members, ∃ other, Keyed.lookup others member.1 = some other ∧ same member.2 other = true := by
  induction members with
  | nil => simp [sameMembers]
  | cons member rest ih =>
    rw [sameMembers,Bool.and_eq_true,ih,List.forall_mem_cons]
    refine and_congr_left fun _ => ?_
    cases found : Keyed.lookup others member.1 with
    | none => simp
    | some other => simp

section Fields
variable {fields : List (String × ProstValue)}

theorem ordered_collect (fields : List (String × ProstValue)) : Keyed.Ordered (collect fields) := by
  suffices all : ∀ map, Keyed.Ordered map →
      Keyed.Ordered (fields.foldl (fun map field => Keyed.insertOrdered field.1 field.2 map) map) from all [] .nil
  induction fields with
  | nil => intro map ordered; exact ordered
  | cons field rest ih => intro map ordered; exact ih _ (ordered.insert field.1 field.2)
theorem lookup_collect (distinct : Keyed.Distinct fields) (name : String) :
    Keyed.lookup (collect fields) name = Keyed.lookup fields name := by
  suffices all : ∀ map, Keyed.lookup (fields.foldl (fun map field => Keyed.insertOrdered field.1 field.2 map) map) name =
      (Keyed.lookup fields name).or (Keyed.lookup map name) by
    rw [collect,all]
    exact Option.or_none
  induction fields with
  | nil => intro map; rfl
  | cons field rest ih =>
    intro map
    obtain ⟨apart,others⟩ := List.nodup_cons.mp distinct
    rw [List.foldl_cons,ih others,Keyed.lookup_insertOrdered,Keyed.lookup_cons]
    by_cases here : name = field.1
    · rw [if_pos here,if_pos here.symm,here,Keyed.lookup_none.mpr apart]
      rfl
    · rw [if_neg here,if_neg (Ne.symm here)]
theorem mem_collect {field : String × ProstValue} (member : field ∈ collect fields) : field ∈ fields := by
  suffices all : ∀ map, field ∈ fields.foldl (fun map field => Keyed.insertOrdered field.1 field.2 map) map →
      field ∈ fields ∨ field ∈ map from (all [] member).resolve_right (List.not_mem_nil)
  clear member
  induction fields with
  | nil => intro map member; exact .inr member
  | cons first rest ih =>
    intro map member
    rcases ih _ member with later | before
    · exact .inl (List.mem_cons_of_mem _ later)
    · rcases Keyed.mem_insertOrdered before with rfl | before
      · exact .inl List.mem_cons_self
      · exact .inr before
theorem collect_perm (distinct : Keyed.Distinct fields) : (collect fields).Perm fields := by
  have ordered := (ordered_collect fields).distinct
  refine (List.perm_ext_iff_of_nodup (List.Nodup.of_map _ ordered) (List.Nodup.of_map _ distinct)).mpr ?_
  rintro ⟨name,value⟩
  rw [Keyed.mem_iff ordered,Keyed.mem_iff distinct,lookup_collect distinct]

end Fields

theorem encoded_distinct {members : List (String × Value)} (distinct : Keyed.Distinct members) :
    Keyed.Distinct (json_object_to_prost members) := by
  rw [json_object_to_prost_map,Keyed.Distinct,List.map_map]
  exact distinct

section Back
variable {number : UInt64 → Value}

theorem same_object {members : List (String × Value)} (distinct : Keyed.Distinct members) :
    same (decoded number (prost_value (.Object members))) (.Object members) = true ↔
      ∀ member ∈ members, same (decoded number (prost_value member.2)) member.2 = true := by
  have perm := collect_perm (encoded_distinct distinct)
  rw [prost_value,decoded,same,decodedFields_map,List.length_map,perm.length_eq,json_object_to_prost_map,List.length_map,
    decide_eq_true rfl,Bool.true_and,sameMembers_iff]
  rw [json_object_to_prost_map] at perm
  have found : ∀ member ∈ members, Keyed.lookup members member.1 = some member.2 := fun member isMember =>
    (Keyed.mem_iff distinct member.1 member.2).mp isMember
  constructor
  · intro all member isMember
    have encoded := List.mem_map_of_mem (f := fun field : String × ProstValue => (field.1,decoded number field.2))
      (perm.mem_iff.mpr (List.mem_map_of_mem (f := fun member : String × Value => (member.1,prost_value member.2)) isMember))
    obtain ⟨other,isOther,matches_⟩ := all _ encoded
    have isMember' : some other = some member.2 := isOther.symm.trans (found member isMember)
    rw [Option.some.inj isMember'] at matches_
    exact matches_
  · intro all field isField
    obtain ⟨encoded,isEncoded,rfl⟩ := List.mem_map.mp isField
    obtain ⟨member,isMember,rfl⟩ := List.mem_map.mp (perm.mem_iff.mp isEncoded)
    exact ⟨member.2,found member isMember,all member isMember⟩
theorem same_array (items : List Value) : same (decoded number (prost_value (.Array items))) (.Array items) = true ↔
    ∀ item ∈ items, same (decoded number (prost_value item)) item = true := by
  rw [prost_value,decoded,same,decodedValues_map,prost_values_map,List.map_map,sameItems_map]
  rfl

theorem same_decoded {isNumber : Number → Prop} (back : ∀ value, isNumber value → number (as_f64 value) = .Number value)
    (value : Value) (every : Everywhere isNumber Keyed.Distinct value) : same (decoded number (prost_value value)) value = true := by
  induction value using induct with
  | null => rfl
  | bool value => exact decide_eq_true rfl
  | number value =>
    rw [prost_value,decoded,back value every]
    exact decide_eq_true rfl
  | string value => exact decide_eq_true rfl
  | array items ih => exact (same_array items).mpr fun item member => ih item member ((everyItem_iff items).mp every item member)
  | object members ih =>
    exact (same_object every.1).mpr fun member isMember => ih member isMember ((everyMember_iff members).mp every.2 member isMember)

theorem decoded_numberless (other : UInt64 → Value) (value : Value) (every : Numberless value) :
    decoded number (prost_value value) = decoded other (prost_value value) := by
  induction value using induct with
  | null => rfl
  | bool value => rfl
  | number value => exact every.elim
  | string value => rfl
  | array items ih =>
    rw [prost_value,decoded,decoded,decodedValues_map,decodedValues_map,prost_values_map,List.map_map,List.map_map]
    exact congrArg Value.Array (List.map_congr_left fun item member => ih item member ((everyItem_iff items).mp every item member))
  | object members ih =>
    rw [prost_value,decoded,decoded,decodedFields_map,decodedFields_map]
    refine congrArg Value.Object (List.map_congr_left fun field isField => ?_)
    have isMember := mem_collect isField
    rw [json_object_to_prost_map] at isMember
    obtain ⟨member,member',rfl⟩ := List.mem_map.mp isMember
    exact congrArg (Prod.mk member.1) (ih member member' ((everyMember_iff members).mp every.2 member member'))

end Back

theorem restored_safe {value : Number} (safe : IsSafe value) : restored (as_f64 value) = .Number value := by
  obtain ⟨integer,bound,rfl⟩ := safe
  have float : as_f64 (fromInteger integer) = Binary64.ofInt integer := by
    rw [fromInteger]
    split_ifs with positive
    · exact congrArg Binary64.ofInt (Int.toNat_of_nonneg positive)
    · rfl
  have small : integer.natAbs < 2 ^ 53 := lt_of_le_of_lt bound (by decide)
  rw [float,restored,Binary64.whole_ofInt small]
  exact if_pos bound

theorem from_f64_differs {value : Number} (safe : IsSafe value) : same (from_f64 (as_f64 value)) (.Number value) = false := by
  obtain ⟨integer,bound,rfl⟩ := safe
  have notFloat : ∀ bits, Number.Float bits ≠ fromInteger integer := by
    intro bits
    rw [fromInteger]
    split_ifs <;> nofun
  rw [from_f64]
  split_ifs with finite
  · exact decide_eq_false (notFloat _)
  · rfl

theorem context_restores {value : Value} (safe : Safe value) : same (contextValue (prost_value value)) value = true :=
  same_decoded (fun _ => restored_safe) value safe

theorem results_restore {value : Value} (safe : Safe value) : same (prost_json (prost_value value)) value = true ↔ Numberless value := by
  rw [prost_json]
  induction value using induct with
  | null => simp [Numberless,Everywhere,prost_value,decoded,same]
  | bool value => simp [Numberless,Everywhere,prost_value,decoded,same]
  | number value =>
    rw [prost_value,decoded,from_f64_differs safe]
    simp [Numberless,Everywhere]
  | string value => simp [Numberless,Everywhere,prost_value,decoded,same]
  | array items ih =>
    rw [same_array,Numberless,Everywhere,everyItem_iff]
    exact forall₂_congr fun item member => ih item member ((everyItem_iff items).mp safe item member)
  | object members ih =>
    rw [same_object safe.1,Numberless,Everywhere,everyMember_iff,true_and]
    exact forall₂_congr fun member isMember => ih member isMember ((everyMember_iff members).mp safe.2 member isMember)

/-- Both decoders give a value back, and the same for both, exactly when it has no
    numbers. -/
theorem decoders_restore {value : Value} (safe : Safe value) :
    (same (contextValue (prost_value value)) value = true ∧ same (prost_json (prost_value value)) value = true ∧
      contextValue (prost_value value) = prost_json (prost_value value)) ↔ Numberless value := by
  constructor
  · rintro ⟨-,results,-⟩
    exact (results_restore safe).mp results
  · intro numberless
    exact ⟨context_restores safe,(results_restore safe).mpr numberless,decoded_numberless from_f64 value numberless⟩

/-- The value 1 comes back as 1.0. -/
theorem one_not_restored : ¬ ∀ value : Value, Safe value →
    same (contextValue (prost_value value)) value = true ∧ same (prost_json (prost_value value)) value = true ∧
      contextValue (prost_value value) = prost_json (prost_value value) := by
  intro always
  obtain ⟨-,results,-⟩ := always (.Number (.PosInt 1)) ⟨1,by decide,rfl⟩
  exact absurd results (by decide +kernel)

/-- The arguments of a call, with an array and without numbers. -/
def arguments : Value := .Object [("query",.String "cats"),("flags",.Array [.Bool true,.Null])]

theorem arguments_safe : Safe arguments := ⟨by unfold Keyed.Distinct; decide,trivial,⟨trivial,trivial,trivial⟩,trivial⟩
theorem arguments_restored : (same (contextValue (prost_value arguments)) arguments = true ∧
    same (prost_json (prost_value arguments)) arguments = true ∧
    contextValue (prost_value arguments) = prost_json (prost_value arguments)) ↔ Numberless arguments :=
  decoders_restore arguments_safe

end MyCursor.ProstValues
