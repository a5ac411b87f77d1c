import Praxec.Json.Value

namespace Praxec.Json

open List

def parseIndex (token : String) : Option Nat :=
  match token.toList with
  | [] => none
  | ['0'] => some 0
  | '0' :: _ => none
  | digits =>
      if digits.all Char.isDigit then
        let n := digits.foldl (fun acc c => 10 * acc + (c.toNat - '0'.toNat)) 0
        if n < 2 ^ 64 then some n else none
      else none

def Value.step (v : Value) (token : String) : Option Value :=
  match v with
  | .object fields => Fields.get fields token
  | .array xs => (parseIndex token).bind fun i => xs[i]?
  | _ => none

def Value.walk (v : Value) : List String → Option Value
  | [] => some v
  | token :: rest => (v.step token).bind fun w => w.walk rest

@[simp]
theorem Value.walk_nil (v : Value) : v.walk [] = some v :=
  rfl

@[simp]
theorem Value.walk_cons (v : Value) (token : String) (rest : List String) :
    v.walk (token :: rest) = (v.step token).bind fun w => w.walk rest :=
  rfl

@[simp]
theorem Value.step_object (fields : Fields) (token : String) :
    (Value.object fields).step token = Fields.get fields token :=
  rfl

theorem Value.step_eq_get (v : Value) (h : parseIndex token = none) : v.step token = v.get token := by
  cases v with
  | array xs => simp [step, get, asObject, h]
  | _ => rfl

theorem Value.step_of_get {v w : Value} {name : String} (h : v.get name = some w) : v.step name = some w := by
  cases v with
  | object fields => exact h
  | _ => cases h

theorem Value.walk_append (v : Value) (tokens more : List String) :
    v.walk (tokens ++ more) = (v.walk tokens).bind fun w => w.walk more := by
  induction tokens generalizing v with
  | nil => rfl
  | cons token rest ih =>
    simp only [cons_append, Value.walk_cons, ih]
    cases v.step token <;> rfl

def replaceTilde : List Char → List Char
  | [] => []
  | '~' :: rest => '~' :: '0' :: replaceTilde rest
  | c :: rest => c :: replaceTilde rest

def replaceSlash : List Char → List Char
  | [] => []
  | '/' :: rest => '~' :: '1' :: replaceSlash rest
  | c :: rest => c :: replaceSlash rest

def pointerEscape (token : String) : String :=
  String.ofList (replaceSlash (replaceTilde token.toList))

def restoreSlash : List Char → List Char
  | '~' :: '1' :: rest => '/' :: restoreSlash rest
  | c :: rest => c :: restoreSlash rest
  | [] => []

def restoreTilde : List Char → List Char
  | '~' :: '0' :: rest => '~' :: restoreTilde rest
  | c :: rest => c :: restoreTilde rest
  | [] => []

def splitSlash : List Char → List (List Char)
  | [] => [[]]
  | c :: rest =>
      if c = '/' then [] :: splitSlash rest
      else match splitSlash rest with
        | [] => [[c]]
        | token :: tokens => (c :: token) :: tokens

def pointerTokens (path : String) : Option (List String) :=
  match path.toList with
  | [] => some []
  | '/' :: rest => some ((splitSlash rest).map fun t => String.ofList (restoreTilde (restoreSlash t)))
  | _ => none

def Value.pointer (v : Value) (path : String) : Option Value :=
  (pointerTokens path).bind v.walk

def pointerPath (tokens : List String) : String :=
  String.ofList (tokens.flatMap fun t => '/' :: (pointerEscape t).toList)

theorem restoreSlash_replaceSlash_replaceTilde :
    restoreSlash (replaceSlash (replaceTilde cs)) = replaceTilde cs := by
  induction cs with
  | nil => rfl
  | cons c rest ih =>
    by_cases ht : c = '~'
    · subst ht
      simpa [replaceTilde, replaceSlash, restoreSlash] using ih
    · by_cases hs : c = '/'
      · subst hs
        simpa [replaceTilde, replaceSlash, restoreSlash] using ih
      · simpa [replaceTilde, replaceSlash, restoreSlash, ht, hs] using ih

theorem restoreTilde_replaceTilde : restoreTilde (replaceTilde cs) = cs := by
  induction cs with
  | nil => rfl
  | cons c rest ih =>
    by_cases ht : c = '~'
    · subst ht
      simpa [replaceTilde, restoreTilde] using ih
    · simpa [replaceTilde, restoreTilde, ht] using ih

theorem not_mem_replaceSlash : '/' ∉ replaceSlash cs := by
  induction cs with
  | nil => simp [replaceSlash]
  | cons c rest ih =>
    by_cases hs : c = '/'
    · subst hs
      simpa [replaceSlash] using ih
    · simpa [replaceSlash, hs, Ne.symm hs] using ih

theorem splitSlash_eq_singleton (h : '/' ∉ cs) : splitSlash cs = [cs] := by
  induction cs with
  | nil => rfl
  | cons c rest ih =>
    simp only [mem_cons, not_or] at h
    simp [splitSlash, Ne.symm h.1, ih h.2]

theorem splitSlash_append (more : List Char) (h : '/' ∉ cs) :
    splitSlash (cs ++ '/' :: more) = cs :: splitSlash more := by
  induction cs with
  | nil => simp [splitSlash]
  | cons c rest ih =>
    simp only [mem_cons, not_or] at h
    simp [splitSlash, Ne.symm h.1, ih h.2]

theorem unescape_pointerEscape :
    String.ofList (restoreTilde (restoreSlash (pointerEscape token).toList)) = token := by
  simp [pointerEscape, restoreSlash_replaceSlash_replaceTilde, restoreTilde_replaceTilde]

theorem splitSlash_escaped (token : String) (tokens : List String) :
    splitSlash ((pointerEscape token).toList ++ tokens.flatMap fun t => '/' :: (pointerEscape t).toList) =
      (token :: tokens).map fun t => (pointerEscape t).toList := by
  have hslash (t : String) : '/' ∉ (pointerEscape t).toList := by
    simpa [pointerEscape] using not_mem_replaceSlash
  induction tokens generalizing token with
  | nil => simp [splitSlash_eq_singleton (hslash token)]
  | cons next rest ih =>
    rw [flatMap_cons, cons_append, splitSlash_append _ (hslash token), ih next]
    rfl

theorem pointerTokens_pointerPath {tokens : List String} : pointerTokens (pointerPath tokens) = some tokens := by
  cases tokens with
  | nil => rfl
  | cons token rest =>
    have h := splitSlash_escaped token rest
    simp only [pointerTokens, pointerPath, flatMap_cons, cons_append, String.toList_ofList, h,
      map_map, Option.some.injEq]
    exact (map_congr_left fun t _ => unescape_pointerEscape).trans (map_id _)

theorem Value.pointer_pointerPath (v : Value) (tokens : List String) :
    v.pointer (pointerPath tokens) = v.walk tokens := by
  simp [Value.pointer, pointerTokens_pointerPath]

end Praxec.Json
