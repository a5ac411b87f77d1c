import Mathlib.Data.List.Dedup
import Praxec.Graph.RoundRobin
import Praxec.Validate.DeterministicLoops

namespace Praxec

open Json Praxec.Graph

namespace Writers

open Reachability DeterministicLoops

def keysOf (v : Option Value) : List String :=
  ((v.bind Value.asObject).getD []).map Prod.fst

section

variable (definition : Value) (states : Fields) (initial : String)

def onEnterOutput (s : String) : List String :=
  keysOf ((states.get s).bind fun state => state.walk ["onEnter", "output"])

def transitionWrites (transition : Value) : List (String × List String) :=
  (transitionTargets transition).map fun target => (target, keysOf (transition.get "output") ++ onEnterOutput states target)

def timeoutWrites : List (String × List String) :=
  (timeoutTarget definition).toList.map fun target => (target, onEnterOutput states target)

def stateWrites (s : String) : List (String × List String) :=
  match states.get s with
  | some state => timeoutWrites definition states ++ (transitionsIn state).flatMap fun t => transitionWrites states t.2
  | none => []

def seedSlots : List String :=
  keysOf (definition.get "inputs") ++ keysOf (definition.get "initialContext") ++ onEnterOutput states initial

def computeWritersInto : Option (RoundRobin.Table String String) :=
  RoundRobin.gather (stateNames states).dedup (stateWrites definition states) initial (seedSlots definition states initial)

def WritingPath : String → List String → Prop :=
  RoundRobin.Path (stateNames states).dedup (stateWrites definition states) initial (seedSlots definition states initial)

/-- A state is first entered by a path that goes back `r` times in the order of listing before its last step. -/
def EntersState (r : Nat) : Prop :=
  RoundRobin.Enters (stateNames states).dedup (stateWrites definition states) initial (seedSlots definition states initial) r

/-- A slot is first written at a state by a path that goes back `r` times in the order of listing before its last step. -/
def BringsSlot (r : Nat) : Prop :=
  RoundRobin.Brings (stateNames states).dedup (stateWrites definition states) initial (seedSlots definition states initial) r

end

/-- The analysis always ends, and gives each state that a path leads to the slots written on such paths, exactly when
nothing is first found by going back `r` times without some slot being first written by going back each smaller number
of times. -/
theorem computeWritersInto_exact_iff (definition : Value) (states : Fields) (initial : String) :
    ∃ writers, computeWritersInto definition states initial = some writers ∧
      (writers.Shows (WritingPath definition states initial) ↔
        ∀ r, EntersState definition states initial r ∨ BringsSlot definition states initial r →
          ∀ j < r, BringsSlot definition states initial j) :=
  RoundRobin.gather_spec (List.nodup_dedup _)

def leadsTo (target : String) (output : Fields) : Value :=
  .object [("transitions", .object [("go", .object [("target", .string target), ("output", .object output)])])]

def backListed : Fields :=
  [("a", leadsTo "c" [("x", .null)]), ("b", leadsTo "a" []), ("c", .emptyObject)]

/-- The state `"c"` has no entry though a path leads to it on which `"x"` is written. -/
theorem listed_before_not_analysed : ∃ writers, computeWritersInto .emptyObject backListed "b" = some writers ∧
    writers.get "c" = none ∧ WritingPath .emptyObject backListed "b" "c" ["x"] ∧
    ¬ writers.Shows (WritingPath .emptyObject backListed "b") := by
  have hpath : WritingPath .emptyObject backListed "b" "c" ["x"] :=
    (RoundRobin.Path.start.step (b := "a") (w := []) (by decide) (by decide)).step (w := ["x"]) (by decide) (by decide)
  refine ⟨[("b", []), ("a", [])], by decide, by decide, hpath, fun h => ?_⟩
  have hentered := (h.entered "c").mpr ⟨_, hpath⟩
  revert hentered
  decide

end Writers

end Praxec
