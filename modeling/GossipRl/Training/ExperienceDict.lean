import GossipRl.Support.NestedList
import GossipRl.Support.PythonJson
import GossipRl.Training.Replay

/-!
# Experiences as dictionaries (`Experience.to_dict`, `Experience.from_dict`)

Between agents an experience is the JSON text of the dictionary that `to_dict` makes of it. `δ` are
the values that are put in the dictionary as they are, and `json` is what `json.loads` reads where
`json.dumps` has written one of them: `none` if that raises, and not always the same value
(`PyValue.roundTrip`). `float32` rounds a number to that type.
-/

namespace GossipRl
open Support

/-- What the environment has been given; an action that is no array is a number, of Python or of
NumPy. -/
inductive ActionValue (K : Type*) where
  | array (a : NdArray K)
  | python (x : K)
  | numpy (x : K)

structure ExperienceContent (K δ : Type*) where
  obs : NdArray K
  action : ActionValue K
  reward : K
  nextObs : NdArray K
  done : δ
  info : δ

/-- What the dictionary has for the action. -/
inductive ActionEntry (K : Type*) where
  | lists (x : NestedList K)
  | numpy (x : K)
deriving DecidableEq

structure ExperienceDict (K δ : Type*) where
  obs : NestedList K
  action : ActionEntry K
  reward : K
  nextObs : NestedList K
  done : δ
  info : δ
  priority : K
deriving DecidableEq

section Convert
variable {K δ : Type*} [Zero K]

def ActionValue.entry : ActionValue K → ActionEntry K
  | .array a => .lists (.ofArray a)
  | .python x => .lists (.leaf x)
  | .numpy x => .numpy x

/-- `np.array`. -/
def ActionEntry.toArray : ActionEntry K → Option (NdArray K)
  | .lists x => x.array
  | .numpy x => (NestedList.leaf x).array

def Experience.toDict (e : Experience (ExperienceContent K δ) K) : ExperienceDict K δ where
  obs := .ofArray e.content.obs
  action := e.content.action.entry
  reward := e.content.reward
  nextObs := .ofArray e.content.nextObs
  done := e.content.done
  info := e.content.info
  priority := e.priority

/-- `json.loads(json.dumps(d))`, if `json.dumps` does not raise. -/
def ExperienceDict.dumps (json : δ → Option δ) (d : ExperienceDict K δ) :
    Option (ExperienceDict K δ) :=
  match d.action with
  | .lists _ =>
    (json d.done).bind fun done => (json d.info).map fun info => { d with done := done, info := info }
  | .numpy _ => none

/-- `from_dict`, of a dictionary with all seven keys. -/
def Experience.fromDict (float32 : K → K) (d : ExperienceDict K δ) :
    Option (Experience (ExperienceContent K δ) K) :=
  d.obs.array.bind fun obs =>
    d.action.toArray.bind fun action =>
      d.nextObs.array.map fun nextObs =>
        { content := {
            obs := obs.map float32
            action := .array action
            reward := d.reward
            nextObs := nextObs.map float32
            done := d.done
            info := d.info }
          priority := d.priority }

end Convert

namespace Experience
variable {K δ : Type*} [Zero K] {json : δ → Option δ} {float32 : K → K}
  {e e' : Experience (ExperienceContent K δ) K}

/-- What another agent gets of an experience, if it can be sent. -/
def transmitted (json : δ → Option δ) (float32 : K → K) (e : Experience (ExperienceContent K δ) K) :
    Option (Experience (ExperienceContent K δ) K) :=
  (e.toDict.dumps json).bind (fromDict float32)

/-- The experience as `from_dict` gives it, with this array for the action and these values. -/
def received (float32 : K → K) (action : NdArray K) (done info : δ)
    (e : Experience (ExperienceContent K δ) K) : Experience (ExperienceContent K δ) K :=
  { e with
    content := { e.content with
      obs := e.content.obs.visible.map float32
      action := .array action
      nextObs := e.content.nextObs.visible.map float32
      done := done
      info := info } }

/-- The array that comes of the action, if `json.dumps` takes it. -/
def sentAction : ActionValue K → Option (NdArray K)
  | .array a => some a.visible
  | .python x => some ⟨[], fun _ => x⟩
  | .numpy _ => none

theorem transmitted_eq_some_iff : e.transmitted json float32 = some e' ↔
    ∃ done info action, json e.content.done = some done ∧ json e.content.info = some info ∧
      sentAction e.content.action = some action ∧ e.received float32 action done info = e' := by
  obtain ⟨⟨obs, action, reward, nextObs, done, info⟩, priority⟩ := e
  cases action with
  | array a =>
    simp [transmitted, toDict, ExperienceDict.dumps, fromDict, ActionValue.entry,
      ActionEntry.toArray, NestedList.array_ofArray, sentAction, received, Option.bind_eq_some_iff]
  | python x =>
    simp [transmitted, toDict, ExperienceDict.dumps, fromDict, ActionValue.entry,
      ActionEntry.toArray, NestedList.array_ofArray, NestedList.array_leaf, sentAction, received,
      Option.bind_eq_some_iff]
  | numpy x => simp [transmitted, toDict, ExperienceDict.dumps, ActionValue.entry, sentAction]

/-- An experience survives the way through JSON as it was. -/
structure Survives (float32 : K → K) (e : Experience (ExperienceContent K (PyValue K)) K) : Prop where
  done : e.content.done.Plain
  info : e.content.info.Plain
  /-- The action is an array, which no dimension of length 0 hides the end of. -/
  action : ∃ a, e.content.action = .array a ∧ 0 ∉ a.shape.dropLast
  shapes : 0 ∉ e.content.obs.shape.dropLast ∧ 0 ∉ e.content.nextObs.shape.dropLast
  obs : ∀ x ∈ e.content.obs.toList, float32 x = x
  nextObs : ∀ x ∈ e.content.nextObs.toList, float32 x = x

end Experience

end GossipRl
