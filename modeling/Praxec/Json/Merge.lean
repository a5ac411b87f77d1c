import Praxec.Json.Value
import Mathlib.Data.List.ReduceOption

namespace Praxec.Json

open List

mutual
/-- Lay `b` over `a`: objects merge key by key, arrays are concatenated, anything else is replaced. -/
def Value.deepMerge : Value → Value → Value
  | .object am, .object bm => .object (Fields.deepMerge am bm)
  | .array aa, .array ab => .array (aa ++ ab)
  | _, b => b

def Fields.deepMerge : Fields → Fields → Fields
  | am, [] => am
  | am, (k, v) :: rest =>
      let merged := match Fields.get am k with
        | some existing => Value.deepMerge existing v
        | none => v
      Fields.deepMerge (Fields.insert am k merged) rest
end

/-- What one place holds once `b` is laid over `a`. -/
def overlay : Option Value → Option Value → Option Value
  | some a, some b => some (a.deepMerge b)
  | none, b => b
  | a, none => a

@[simp]
theorem overlay_none (a : Option Value) : overlay a none = a := by
  cases a <;> rfl

@[simp]
theorem none_overlay (b : Option Value) : overlay none b = b := by
  cases b <;> rfl

theorem isSome_overlay (a b : Option Value) : (overlay a b).isSome = (a.isSome || b.isSome) := by
  cases a <;> cases b <;> rfl

def overlays (layers : List (Option Value)) : Option Value :=
  layers.foldl overlay none

theorem overlays_append (layers more : List (Option Value)) :
    overlays (layers ++ more) = more.foldl overlay (overlays layers) :=
  foldl_append

theorem isSome_foldl_overlay (layers : List (Option Value)) (bottom : Option Value) :
    (layers.foldl overlay bottom).isSome ↔ bottom.isSome ∨ ∃ layer ∈ layers, layer.isSome := by
  induction layers generalizing bottom with
  | nil => simp
  | cons layer rest ih => simp [ih, isSome_overlay, or_assoc]

variable {layers : List (Option Value)}

theorem isSome_overlays : (overlays layers).isSome ↔ ∃ layer ∈ layers, layer.isSome := by
  simp [overlays, isSome_foldl_overlay]

theorem foldl_overlay_of_none (h : ∀ layer ∈ layers, layer = none) (bottom : Option Value) :
    layers.foldl overlay bottom = bottom := by
  induction layers with
  | nil => rfl
  | cons layer rest ih =>
    rw [foldl_cons, h layer (.head _), overlay_none]
    exact ih fun other hother => h other (.tail _ hother)

variable {v : Value}

theorem overlays_of_single (h : layers.reduceOption = [v]) : overlays layers = some v := by
  induction layers with
  | nil => cases h
  | cons layer rest ih =>
    cases layer with
    | none => exact ih (by simpa using h)
    | some w =>
      rw [reduceOption_cons_of_some] at h
      obtain ⟨rfl, hrest⟩ := List.cons.inj h
      refine foldl_overlay_of_none (fun layer hlayer => ?_) (some w)
      cases layer with
      | none => rfl
      | some u => exact absurd (hrest ▸ reduceOption_mem_iff.mpr hlayer) not_mem_nil

namespace Fields

theorem get_eq_none_iff {fields : Fields} {key : String} : fields.get key = none ↔ key ∉ fields.map Prod.fst := by
  induction fields with
  | nil => simp
  | cons entry rest ih =>
    obtain ⟨k, v⟩ := entry
    rw [get_cons]
    by_cases hk : key = k <;> simp [hk, ih]

theorem get_deepMerge (am : Fields) {bm : Fields} (hd : bm.Distinct) (key : String) :
    get (deepMerge am bm) key = overlay (am.get key) (bm.get key) := by
  induction bm generalizing am with
  | nil => simp [deepMerge]
  | cons entry rest ih =>
    obtain ⟨k, v⟩ := entry
    obtain ⟨hk, hrest⟩ := nodup_cons.mp hd
    rw [deepMerge, ih _ hrest, get_insert, get_cons]
    by_cases hkey : key = k
    · subst hkey
      rw [if_pos rfl, if_pos rfl, get_eq_none_iff.mpr hk]
      cases am.get key <;> rfl
    · rw [if_neg hkey, if_neg hkey]

theorem Distinct.deepMerge (ha : am.Distinct) (bm : Fields) : Distinct (Fields.deepMerge am bm) := by
  induction bm generalizing am with
  | nil => simpa [Fields.deepMerge] using ha
  | cons entry rest ih =>
    exact ih (ha.insert _ _)

end Fields

namespace Value

variable {a b : Value}

theorem get_deepMerge (ha : a.isObject) (hb : b.isObject) (hd : b.Distinct) (key : String) :
    (a.deepMerge b).get key = overlay (a.get key) (b.get key) := by
  obtain ⟨am, rfl⟩ := (isObject_iff a).mp ha
  obtain ⟨bm, rfl⟩ := (isObject_iff b).mp hb
  exact Fields.get_deepMerge am (hd bm rfl) key

theorem deepMerge_of_not_isObject (hb : b.isObject = false) : (a.deepMerge b).isObject = false := by
  cases a <;> cases b <;> exact hb

theorem isObject_deepMerge (hb : b.isObject) : (a.deepMerge b).isObject := by
  obtain ⟨bm, rfl⟩ := (isObject_iff b).mp hb
  cases a <;> rfl

def entry (v : Value) (block id : String) : Option Value :=
  (v.get block).bind fun entries => entries.get id

structure Keyed (v : Value) : Prop where
  distinct : v.Distinct
  blocks : ∀ block entries, v.get block = some entries → entries.Distinct

structure Registry (v : Value) : Prop extends Keyed v where
  isObject : v.isObject = true
  open_blocks : ∀ block entries, v.get block = some entries → entries.isObject = true

def Opens (v : Value) (block : String) : Prop :=
  ∀ entries, v.get block = some entries → entries.isObject = true

theorem entry_eq_none_of_get (h : v.get block = none) (id : String) : v.entry block id = none := by
  simp [entry, h]

theorem opens_of_entry {block id : String} (h : v.entry block id = some w) : v.Opens block := by
  intro entries hblock
  cases hobj : entries.isObject with
  | true => rfl
  | false =>
    rw [entry, hblock, Option.bind_some, get_of_not_isObject hobj] at h
    cases h

theorem registry_empty : Registry (object []) where
  distinct := by rintro _ ⟨⟩; exact nodup_nil
  blocks := nofun
  isObject := rfl
  open_blocks := nofun

theorem entry_deepMerge (ha : a.Registry) (hb : b.Keyed) (hobj : b.isObject) (block id : String) :
    (b.Opens block → (a.deepMerge b).entry block id = overlay (a.entry block id) (b.entry block id)) ∧
    (¬ b.Opens block → (a.deepMerge b).entry block id = none) := by
  have hget := get_deepMerge ha.isObject hobj hb.distinct block
  unfold entry
  rw [hget]
  cases hB : b.get block with
  | none =>
    refine ⟨fun _ => by simp, fun hclosed => absurd (fun entries h => ?_) hclosed⟩
    rw [hB] at h
    cases h
  | some entries =>
    constructor
    · intro hopen
      have hentries := hopen entries hB
      cases hA : a.get block with
      | none => rfl
      | some olds => exact get_deepMerge (ha.open_blocks block olds hA) hentries (hb.blocks block entries hB) id
    · intro hclosed
      have hentries : entries.isObject = false := by
        cases h : entries.isObject with
        | false => rfl
        | true => exact absurd (fun w hw => by rw [hB] at hw; cases hw; exact h) hclosed
      cases hA : a.get block with
      | none => exact get_of_not_isObject hentries id
      | some olds => exact get_of_not_isObject (deepMerge_of_not_isObject hentries) id

theorem distinct_deepMerge (ha : a.Distinct) (hb : b.Distinct) : (a.deepMerge b).Distinct := by
  intro fields h
  cases hobj : b.isObject with
  | false =>
    have hmerged := deepMerge_of_not_isObject (a := a) hobj
    rw [h] at hmerged
    cases hmerged
  | true =>
    obtain ⟨bm, rfl⟩ := (isObject_iff b).mp hobj
    cases a with
    | object am =>
      cases h
      exact (ha am rfl).deepMerge bm
    | _ => exact hb fields (by simpa [deepMerge] using h)

theorem Registry.deepMerge (ha : a.Registry) (hb : b.Registry) : (a.deepMerge b).Registry where
  distinct := distinct_deepMerge ha.distinct hb.distinct
  isObject := isObject_deepMerge hb.isObject
  blocks := by
    intro block entries h
    rw [get_deepMerge ha.isObject hb.isObject hb.distinct] at h
    cases hA : a.get block with
    | none => exact hb.blocks block entries (by simpa [hA] using h)
    | some olds =>
      cases hB : b.get block with
      | none =>
        rw [hB, overlay_none] at h
        exact ha.blocks block entries h
      | some news =>
        rw [hA, hB] at h
        cases h
        exact distinct_deepMerge (ha.blocks block olds hA) (hb.blocks block news hB)
  open_blocks := by
    intro block entries h
    rw [get_deepMerge ha.isObject hb.isObject hb.distinct] at h
    cases hB : b.get block with
    | none =>
      rw [hB, overlay_none] at h
      exact ha.open_blocks block entries h
    | some news =>
      have hnews := hb.open_blocks block news hB
      cases hA : a.get block with
      | none =>
        rw [hA, hB] at h
        cases h
        exact hnews
      | some olds =>
        rw [hA, hB] at h
        cases h
        exact isObject_deepMerge hnews

end Value

end Praxec.Json
