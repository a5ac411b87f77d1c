import Mathlib.Algebra.Group.Nat.Defs
import Mathlib.Data.List.Basic

namespace Praxec.Json

open List

/-- A JSON number as the runtime stores it: an unsigned integer, a negative integer `-(n + 1)`,
or the bits of a double. -/
inductive Number where
  | posInt (n : Nat)
  | negInt (n : Nat)
  | float (bits : Nat)
deriving DecidableEq

/-- JSON documents. Objects are insertion-ordered association lists; lookups read the first entry
of a key and `insert` never adds a second one. -/
inductive Value where
  | null
  | bool (b : Bool)
  | number (n : Number)
  | string (s : String)
  | array (xs : List Value)
  | object (fields : List (String × Value))
deriving Inhabited

abbrev Fields := List (String × Value)

mutual
def Value.decEq : (v w : Value) → Decidable (v = w)
  | .null, .null => isTrue rfl
  | .null, .bool _ | .null, .number _ | .null, .string _ | .null, .array _ | .null, .object _ =>
      isFalse nofun
  | .bool a, .bool b => if h : a = b then isTrue (h ▸ rfl) else isFalse (fun e => h (Value.bool.inj e))
  | .bool _, .null | .bool _, .number _ | .bool _, .string _ | .bool _, .array _ | .bool _, .object _ =>
      isFalse nofun
  | .number a, .number b =>
      if h : a = b then isTrue (h ▸ rfl) else isFalse (fun e => h (Value.number.inj e))
  | .number _, .null | .number _, .bool _ | .number _, .string _ | .number _, .array _
  | .number _, .object _ => isFalse nofun
  | .string a, .string b =>
      if h : a = b then isTrue (h ▸ rfl) else isFalse (fun e => h (Value.string.inj e))
  | .string _, .null | .string _, .bool _ | .string _, .number _ | .string _, .array _
  | .string _, .object _ => isFalse nofun
  | .array xs, .array ys =>
      match Value.decEqList xs ys with
      | isTrue h => isTrue (h ▸ rfl)
      | isFalse h => isFalse (fun e => h (Value.array.inj e))
  | .array _, .null | .array _, .bool _ | .array _, .number _ | .array _, .string _
  | .array _, .object _ => isFalse nofun
  | .object xs, .object ys =>
      match Value.decEqFields xs ys with
      | isTrue h => isTrue (h ▸ rfl)
      | isFalse h => isFalse (fun e => h (Value.object.inj e))
  | .object _, .null | .object _, .bool _ | .object _, .number _ | .object _, .string _
  | .object _, .array _ => isFalse nofun

def Value.decEqList : (xs ys : List Value) → Decidable (xs = ys)
  | [], [] => isTrue rfl
  | [], _ :: _ | _ :: _, [] => isFalse nofun
  | x :: xs, y :: ys =>
      match Value.decEq x y, Value.decEqList xs ys with
      | isTrue h, isTrue h' => isTrue (by rw [h, h'])
      | isFalse h, _ => isFalse (fun e => h (List.cons.inj e).1)
      | _, isFalse h => isFalse (fun e => h (List.cons.inj e).2)

def Value.decEqFields : (xs ys : List (String × Value)) → Decidable (xs = ys)
  | [], [] => isTrue rfl
  | [], _ :: _ | _ :: _, [] => isFalse nofun
  | (k, x) :: xs, (l, y) :: ys =>
      if hk : k = l then
        match Value.decEq x y, Value.decEqFields xs ys with
        | isTrue h, isTrue h' => isTrue (by rw [hk, h, h'])
        | isFalse h, _ => isFalse (fun e => h (Prod.mk.inj (List.cons.inj e).1).2)
        | _, isFalse h => isFalse (fun e => h (List.cons.inj e).2)
      else isFalse (fun e => hk (Prod.mk.inj (List.cons.inj e).1).1)
end

instance : DecidableEq Value := Value.decEq

instance : Coe String Value := ⟨.string⟩

example : Value.object [("a", .bool true)] ≠ Value.object [("a", .bool false)] := by decide

variable {fields xs ys : Fields} {key : String} {v value : Value}

namespace Fields

def get (fields : Fields) (key : String) : Option Value :=
  fields.lookup key

def contains (fields : Fields) (key : String) : Bool :=
  (fields.get key).isSome

def insert (fields : Fields) (key : String) (value : Value) : Fields :=
  match fields with
  | [] => [(key, value)]
  | (k, v) :: rest => if k = key then (key, value) :: rest else (k, v) :: insert rest key value

def retain (fields : Fields) (keep : String → Bool) : Fields :=
  fields.filter fun entry => keep entry.1

def remove (fields : Fields) (key : String) : Fields :=
  fields.retain fun k => k != key

@[simp]
theorem get_nil (key : String) : get [] key = none :=
  rfl

theorem get_cons (k : String) (v : Value) (rest : Fields) (key : String) :
    get ((k, v) :: rest) key = if key = k then some v else get rest key := by
  unfold get
  rw [lookup_cons]
  by_cases h : key = k
  · simp [h]
  · simp [h, beq_false_of_ne h]

theorem mem_of_get (h : fields.get key = some v) : (key, v) ∈ fields := by
  induction fields with
  | nil => cases h
  | cons entry rest ih =>
    rw [get_cons] at h
    split at h
    · rename_i hkey
      cases h
      exact hkey ▸ .head _
    · exact .tail _ (ih h)

theorem get_insert (fields : Fields) (key other : String) (value : Value) :
    (fields.insert key value).get other = if other = key then some value else fields.get other := by
  induction fields with
  | nil => simp [insert, get_cons]
  | cons entry rest ih =>
    obtain ⟨k, v⟩ := entry
    by_cases hk : k = key
    · subst hk
      simp only [insert, if_true, get_cons]
      split_ifs <;> rfl
    · simp only [insert, hk, if_false, get_cons, ih]
      by_cases ho : other = k
      · subst ho
        simp [hk]
      · simp [ho]

@[simp]
theorem get_insert_self (fields : Fields) (key : String) (value : Value) :
    (fields.insert key value).get key = some value := by
  simp [get_insert]

theorem get_insert_of_ne (fields : Fields) (value : Value) (h : other ≠ key) :
    (fields.insert key value).get other = fields.get other := by
  simp [get_insert, h]

theorem get_retain (fields : Fields) (keep : String → Bool) (key : String) :
    (fields.retain keep).get key = if keep key then fields.get key else none := by
  unfold retain
  induction fields with
  | nil => simp
  | cons entry rest ih =>
    obtain ⟨k, v⟩ := entry
    by_cases hk : keep k
    · rw [filter_cons, if_pos hk, get_cons, get_cons, ih]
      by_cases h : key = k
      · simp [h, hk]
      · simp [h]
    · rw [filter_cons, if_neg hk, ih, get_cons]
      by_cases h : key = k
      · simp [h, hk]
      · simp [h]

theorem get_remove (fields : Fields) (key other : String) :
    (fields.remove key).get other = if other = key then none else fields.get other := by
  unfold remove
  rw [get_retain]
  by_cases h : other = key <;> simp [h]

def Distinct (fields : Fields) : Prop :=
  (fields.map Prod.fst).Nodup

theorem mem_keys_insert :
    other ∈ (fields.insert key value).map Prod.fst ↔ other = key ∨ other ∈ fields.map Prod.fst := by
  induction fields with
  | nil => simp [insert]
  | cons entry rest ih =>
    obtain ⟨k, v⟩ := entry
    by_cases hk : k = key
    · simp [insert, hk]
    · simp only [insert, hk, if_false, map_cons, mem_cons, ih]
      tauto

theorem Distinct.insert (h : fields.Distinct) (key : String) (value : Value) :
    (fields.insert key value).Distinct := by
  induction fields with
  | nil => simp [Distinct, Fields.insert]
  | cons entry rest ih =>
    obtain ⟨k, v⟩ := entry
    obtain ⟨hk, hrest⟩ := nodup_cons.mp h
    by_cases heq : k = key
    · subst heq
      simpa [Fields.insert, Distinct] using h
    · simp only [Fields.insert, heq, if_false]
      refine nodup_cons.mpr ⟨fun hmem => ?_, ih hrest⟩
      exact (mem_keys_insert.mp hmem).elim heq hk

theorem Distinct.value_unique (hd : fields.Distinct) (h : (key, v) ∈ fields) (h' : (key, v') ∈ fields) : v = v' := by
  induction fields with
  | nil => cases h
  | cons entry rest ih =>
    obtain ⟨hhead, hrest⟩ := nodup_cons.mp hd
    rcases mem_cons.mp h with rfl | hmem <;> rcases mem_cons.mp h' with heq | hmem'
    · exact (Prod.mk.inj heq).2.symm
    · exact absurd (mem_map_of_mem hmem') hhead
    · subst heq
      exact absurd (mem_map_of_mem hmem) hhead
    · exact ih hrest hmem hmem'

theorem Distinct.retain (h : fields.Distinct) (keep : String → Bool) : (fields.retain keep).Distinct :=
  h.sublist (filter_sublist.map _)

end Fields

namespace Value

def asObject : Value → Option Fields
  | object fields => some fields
  | _ => none

def asArray : Value → Option (List Value)
  | array xs => some xs
  | _ => none

def asStr : Value → Option String
  | string s => some s
  | _ => none

def asBool : Value → Option Bool
  | bool b => some b
  | _ => none

def asU64 : Value → Option Nat
  | number (.posInt n) => some n
  | _ => none

def isObject (v : Value) : Bool :=
  v.asObject.isSome

def get (v : Value) (key : String) : Option Value :=
  v.asObject.bind fun fields => fields.get key

def nat (n : Nat) : Value :=
  number (.posInt n)

def emptyObject : Value :=
  object []

def mapObject (f : Fields → Fields) : Value → Value
  | object fields => object (f fields)
  | v => v

def insert (v : Value) (key : String) (value : Value) : Value :=
  v.mapObject fun fields => fields.insert key value

def remove (v : Value) (key : String) : Value :=
  v.mapObject fun fields => fields.remove key

def retain (v : Value) (keep : String → Bool) : Value :=
  v.mapObject fun fields => fields.retain keep

def hasKey (v : Value) (key : String) : Bool :=
  (v.get key).isSome

@[simp]
theorem get_object (fields : Fields) (key : String) : (object fields).get key = fields.get key :=
  rfl

@[simp]
theorem isObject_mapObject (f : Fields → Fields) (v : Value) : (v.mapObject f).isObject = v.isObject := by
  cases v <;> rfl

theorem asArray_eq_some {xs : List Value} (h : v.asArray = some xs) : v = array xs := by
  cases v <;> cases h
  rfl

theorem asStr_eq_some (h : v.asStr = some text) : v = string text := by
  cases v <;> cases h
  rfl

theorem asObject_eq_some (h : v.asObject = some fields) : v = object fields := by
  cases v <;> simp_all [asObject]

theorem isObject_iff (v : Value) : v.isObject ↔ ∃ fields, v = object fields := by
  cases v <;> simp [isObject, asObject]

theorem get_of_not_isObject (h : v.isObject = false) (key : String) : v.get key = none := by
  cases v <;> simp_all [isObject, asObject, get]

def Distinct (v : Value) : Prop :=
  ∀ fields : Fields, v = object fields → fields.Distinct

theorem Distinct.mapObject (h : v.Distinct)
    (hf : ∀ fields, fields.Distinct → (f fields).Distinct) : (v.mapObject f).Distinct := by
  cases v with
  | object fields =>
    rintro _ ⟨⟩
    exact hf fields (h fields rfl)
  | _ => exact h

theorem Distinct.insert (h : v.Distinct) (key : String) (value : Value) : (v.insert key value).Distinct :=
  h.mapObject fun _ hf => hf.insert key value

theorem Distinct.retain (h : v.Distinct) (keep : String → Bool) : (v.retain keep).Distinct :=
  h.mapObject fun _ hf => hf.retain keep

theorem Distinct.remove (h : v.Distinct) (key : String) : (v.remove key).Distinct :=
  h.mapObject fun _ hf => hf.retain _

theorem get_remove (v : Value) (key other : String) :
    (v.remove key).get other = if other = key then none else v.get other := by
  cases v <;> simp [remove, mapObject, get, asObject, Fields.get_remove]

theorem get_retain (v : Value) (keep : String → Bool) (key : String) :
    (v.retain keep).get key = if keep key then v.get key else none := by
  cases v <;> simp [retain, mapObject, get, asObject, Fields.get_retain]

theorem get_insert (h : v.isObject) (key other : String) (value : Value) :
    (v.insert key value).get other = if other = key then some value else v.get other := by
  obtain ⟨fields, rfl⟩ := (isObject_iff v).mp h
  simp [insert, mapObject, Fields.get_insert]

theorem get_insert_of_ne (v : Value) (value : Value) (h : other ≠ key) :
    (v.insert key value).get other = v.get other := by
  cases v <;> simp [insert, mapObject, get, asObject, Fields.get_insert_of_ne _ _ h]

end Value

def Number.same : Number → Number → Bool
  | .posInt a, .posInt b => a = b
  | .negInt a, .negInt b => a = b
  | .float a, .float b => a = b || (a % 2 ^ 63 = 0 && b % 2 ^ 63 = 0)
  | _, _ => false

mutual
def Value.same : Value → Value → Bool
  | .null, .null => true
  | .bool a, .bool b => a = b
  | .number a, .number b => a.same b
  | .string a, .string b => a = b
  | .array xs, .array ys => Value.sameList xs ys
  | .object xs, .object ys => xs.length = ys.length && Value.sameFields xs ys
  | _, _ => false

def Value.sameList : List Value → List Value → Bool
  | [], [] => true
  | x :: xs, y :: ys => Value.same x y && Value.sameList xs ys
  | _, _ => false

def Value.sameFields : List (String × Value) → List (String × Value) → Bool
  | [], _ => true
  | (k, v) :: rest, ys =>
      (match Fields.get ys k with
        | some w => Value.same v w
        | none => false) && Value.sameFields rest ys
end

theorem Number.same_trans {a b c : Number} (hab : a.same b) (hbc : b.same c) : a.same c := by
  cases a <;> cases b <;> simp [Number.same] at hab <;> cases c <;> simp [Number.same] at hbc ⊢ <;> grind

theorem Value.get_of_sameFields (h : Value.sameFields xs ys)
    (hv : xs.get key = some v) : ∃ w, ys.get key = some w ∧ v.same w := by
  induction xs with
  | nil => cases hv
  | cons entry rest ih =>
    obtain ⟨k, u⟩ := entry
    simp only [Value.sameFields, Bool.and_eq_true] at h
    rw [Fields.get_cons] at hv
    split at hv
    · rename_i hk
      cases hv
      rw [hk]
      cases hw : ys.get k with
      | none => simp [hw] at h
      | some w => exact ⟨w, rfl, by simpa [hw] using h.1⟩
    · exact ih h.2 hv

mutual
theorem Value.same_trans : {a b c : Value} → a.same b → b.same c → a.same c
  | .null, .null, _, _, hbc => hbc
  | .bool a, .bool b, _, hab, hbc => by
    have heq : a = b := by simpa [Value.same] using hab
    exact heq ▸ hbc
  | .number a, .number b, .number c, hab, hbc => Number.same_trans (a := a) hab hbc
  | .string a, .string b, _, hab, hbc => by
    have heq : a = b := by simpa [Value.same] using hab
    exact heq ▸ hbc
  | .array xs, .array ys, .array zs, hab, hbc => by
    simp only [Value.same] at hab hbc ⊢
    exact Value.sameList_trans hab hbc
  | .object xs, .object ys, .object zs, hab, hbc => by
    simp only [Value.same, Bool.and_eq_true, decide_eq_true_eq] at hab hbc ⊢
    exact ⟨hab.1.trans hbc.1, Value.sameFields_trans hab.2 hbc.2⟩

theorem Value.sameList_trans : {xs ys zs : List Value} → Value.sameList xs ys → Value.sameList ys zs →
    Value.sameList xs zs
  | [], [], [], _, _ => rfl
  | x :: xs, y :: ys, z :: zs, hab, hbc => by
    simp only [Value.sameList, Bool.and_eq_true] at hab hbc ⊢
    exact ⟨Value.same_trans hab.1 hbc.1, Value.sameList_trans hab.2 hbc.2⟩

theorem Value.sameFields_trans : {xs ys zs : List (String × Value)} → Value.sameFields xs ys →
    Value.sameFields ys zs → Value.sameFields xs zs
  | [], _, _, _, _ => rfl
  | (k, v) :: rest, ys, zs, hab, hbc => by
    simp only [Value.sameFields, Bool.and_eq_true] at hab ⊢
    refine ⟨?_, Value.sameFields_trans hab.2 hbc⟩
    cases hw : Fields.get ys k with
    | none => simp [hw] at hab
    | some w =>
      have hvw : v.same w := by simpa [hw] using hab.1
      obtain ⟨u, hu, hwu⟩ := Value.get_of_sameFields hbc hw
      rw [hu]
      exact Value.same_trans hvw hwu
end

def Alike (a b : Option Value) : Prop :=
  a = b ∨ ∃ v w, a = some v ∧ b = some w ∧ v.same w = true

theorem Alike.trans {a b c : Option Value} (hab : Alike a b) (hbc : Alike b c) : Alike a c := by
  rcases hab with rfl | ⟨v, w, rfl, rfl, hvw⟩
  · exact hbc
  · rcases hbc with rfl | ⟨w', u, hw, rfl, hwu⟩
    · exact .inr ⟨v, w, rfl, rfl, hvw⟩
    · cases hw
      exact .inr ⟨v, u, rfl, rfl, Value.same_trans hvw hwu⟩

theorem Alike.eq_none (h : Alike a none) : a = none := by
  rcases h with rfl | ⟨_, _, _, hb, _⟩
  · rfl
  · cases hb

structure Value.Alike (v w : Value) : Prop where
  isObject : v.isObject = w.isObject
  get : ∀ key, Json.Alike (v.get key) (w.get key)

inductive Value.Edited (v : Value) : Value → Prop where
  | refl : Edited v v
  | insert {w : Value} (h : Edited v w) (key : String) (value : Value) : Edited v (w.insert key value)
  | retain {w : Value} (h : Edited v w) (keep : String → Bool) : Edited v (w.retain keep)

namespace Value.Edited

variable {v w : Value}

theorem remove (h : Edited v w) (key : String) : Edited v (w.remove key) :=
  h.retain fun k => k != key

theorem trans (huv : Edited u v) (hvw : Edited v w) : Edited u w := by
  induction hvw with
  | refl => exact huv
  | insert _ key value ih => exact ih.insert key value
  | retain _ keep ih => exact ih.retain keep

theorem isObject (h : Edited v w) : w.isObject = v.isObject := by
  induction h with
  | refl => rfl
  | insert _ key value ih => exact (Value.isObject_mapObject _ _).trans ih
  | retain _ keep ih => exact (Value.isObject_mapObject _ _).trans ih

theorem distinct (h : Edited v w) (hv : v.Distinct) : w.Distinct := by
  induction h with
  | refl => exact hv
  | insert _ key value ih => exact ih.insert key value
  | retain _ keep ih => exact ih.retain keep

theorem foldl_insert (h : Edited v w) (specs : Fields) (f : Value → Value) :
    Edited v (specs.foldl (fun acc spec => acc.insert spec.1 (f spec.2)) w) := by
  induction specs generalizing w with
  | nil => exact h
  | cons spec rest ih => exact ih (h.insert _ _)

theorem foldl_remove (h : Edited v w) (keys : List String) :
    Edited v (keys.foldl (fun acc key => acc.remove key) w) := by
  induction keys generalizing w with
  | nil => exact h
  | cons key rest ih => exact ih (h.remove key)

end Value.Edited

end Praxec.Json
