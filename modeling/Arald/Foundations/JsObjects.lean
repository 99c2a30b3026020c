import Arald.Foundations.JsValue

/-!
# Assignments to properties

`object.name = value` and `delete object.name`. A new property comes last, and an old one
keeps its place.
-/

namespace Foundations
namespace JsValue

variable {name other : String} {v : JsValue} {fields : List (String × JsValue)}

def setField (name : String) (v : JsValue) : List (String × JsValue) → List (String × JsValue)
  | [] => [(name, v)]
  | f :: fields => if f.1 = name then (name, v) :: fields else f :: setField name v fields

def setProp (object : JsValue) (name : String) (v : JsValue) : JsValue :=
  match object with
  | obj fields => obj (setField name v fields)
  | object => object

def deleteProp (object : JsValue) (name : String) : JsValue :=
  match object with
  | obj fields => obj (fields.filter fun f => f.1 ≠ name)
  | object => object

/-- An object literal, without the properties that are undefined. -/
def record (fields : List (String × JsValue)) : JsValue := obj (fields.filter fun f => !f.2.isUndefined)

theorem find?_setField_self : (setField name v fields).find? (fun f => f.1 = name) = some (name, v) := by
  induction fields with
  | nil => simp [setField]
  | cons f fields ih =>
    rw [setField]
    split_ifs with hname
    · simp
    · rw [List.find?_cons_of_neg (by simpa using hname), ih]

theorem find?_setField_of_ne (hne : other ≠ name) :
    (setField name v fields).find? (fun f => f.1 = other) = fields.find? fun f => f.1 = other := by
  induction fields with
  | nil => simp [setField, hne.symm]
  | cons f fields ih =>
    rw [setField]
    split_ifs with hname
    · rw [List.find?_cons_of_neg (by simpa using hne.symm),
        List.find?_cons_of_neg (by simpa [hname] using hne.symm)]
    · rw [List.find?_cons, List.find?_cons, ih]

theorem prop_setProp_self : ((obj fields).setProp name v).prop name = v := by
  rw [setProp, prop, find?_setField_self]
  rfl

theorem prop_setProp_of_ne (hne : other ≠ name) (object v : JsValue) :
    (object.setProp name v).prop other = object.prop other := by
  cases object with
  | obj fields => rw [setProp, prop, find?_setField_of_ne hne, prop]
  | _ => rfl

theorem prop_deleteProp_self (object : JsValue) : (object.deleteProp name).prop name = undefined := by
  cases object with
  | obj fields =>
    have hnone : (fields.filter fun f => f.1 ≠ name).find? (fun f => f.1 = name) = none := by
      rw [List.find?_eq_none]
      intro f hf
      simpa using (List.mem_filter.mp hf).2
    rw [deleteProp, prop, hnone]
    rfl
  | _ => rfl

theorem prop_deleteProp_of_ne (hne : other ≠ name) (object : JsValue) :
    (object.deleteProp name).prop other = object.prop other := by
  cases object with
  | obj fields =>
    have hsame : (fields.filter fun f => f.1 ≠ name).find? (fun f => f.1 = other) =
        fields.find? fun f => f.1 = other := by
      rw [List.find?_filter]
      congr 1
      funext f
      by_cases hother : f.1 = other
      · simp [hother, hne]
      · simp [hother]
    rw [deleteProp, prop, hsame, prop]
  | _ => rfl

/-- A property that is left out reads as undefined. -/
theorem prop_record (hnodup : (fields.map Prod.fst).Nodup) : (record fields).prop name = (obj fields).prop name := by
  unfold record prop
  dsimp only
  induction fields with
  | nil => rfl
  | cons f fields ih =>
    obtain ⟨hnew, hnodup⟩ := List.nodup_cons.mp hnodup
    by_cases hname : f.1 = name
    · rw [List.find?_cons_of_pos (by simpa using hname)]
      by_cases hundefined : f.2.isUndefined = true
      · have hnone : (fields.filter fun f => !f.2.isUndefined).find? (fun f => f.1 = name) = none := by
          rw [List.find?_eq_none]
          intro g hg
          have hmem := List.mem_map_of_mem (f := Prod.fst) (List.mem_filter.mp hg).1
          rw [decide_eq_true_eq]
          rintro hsame
          exact hnew (hname.trans hsame.symm ▸ hmem)
        rw [List.filter_cons_of_neg (by simpa using hundefined), hnone]
        obtain ⟨label, value⟩ := f
        cases value <;> first | rfl | cases hundefined
      · rw [List.filter_cons_of_pos (by simpa using hundefined), List.find?_cons_of_pos (by simpa using hname)]
    · rw [List.find?_cons_of_neg (by simpa using hname), ← ih hnodup]
      by_cases hundefined : f.2.isUndefined = true
      · rw [List.filter_cons_of_neg (by simpa using hundefined)]
      · rw [List.filter_cons_of_pos (by simpa using hundefined), List.find?_cons_of_neg (by simpa using hname)]

end JsValue
end Foundations
