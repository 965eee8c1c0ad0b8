import Ferry.Transfer.Basic

/-!
A transfer with what is around it, and the calls by which it changes, be they made from outside or
by a hook that was called for it. There is no other way to change a transfer: what it is about is
settled when it is submitted, a recorded failure can be replaced but not withdrawn, and what was
announced or called off stays so.
-/
namespace Ferry.Transfer

/-- A transfer, the tokens, and the world `ω` around them. -/
structure Scene (ω : Type) where
  transfer : Transfer
  tokens : Tokens
  world : ω

variable {ω : Type}

namespace Scene

/-- A scene without the world around it. -/
def bare (scene : Scene ω) : Scene Unit := ⟨scene.transfer, scene.tokens, ()⟩

/-- How the transfer has failed. -/
def failure? (scene : Scene ω) : Option Failure := scene.transfer.failure? scene.tokens

/-- Whether the transfer is called off. -/
def isCancelled (scene : Scene ω) : Bool := scene.transfer.isCancelled scene.tokens

/-- The scene once the transfer is announced as queued. -/
def markQueued (scene : Scene ω) : Scene ω := { scene with transfer.queued := true }

/-- The scene once the transfer is announced as done. -/
def markDone (scene : Scene ω) : Scene ω := { scene with transfer.done := true }

theorem markQueued_eq_self (scene : Scene ω) (queued : scene.transfer.queued = true) :
    scene.markQueued = scene := by
  unfold markQueued
  rw [← queued]

theorem markDone_eq_self (scene : Scene ω) (done : scene.transfer.done = true) :
    scene.markDone = scene := by
  unfold markDone
  rw [← done]

end Scene

/-- A call on a transfer or on a token. -/
inductive Call
  | fail (reason : String)
  | cancel
  /-- Calls off a token: the one that the transfer's was made from, or any other. -/
  | cancelToken (t : Token)
  | makeToken
  | makeTokenFrom (t : Token)
  | setParam (name value : String)
  | setSize (n : Nat)
  /-- Announces that the transfer is queued. What its observers do then are calls of their own. -/
  | announceQueued
  | announceDone
  /-- Asks for something, and changes nothing. -/
  | look
deriving DecidableEq, Repr

/-- What a call makes of a scene. A transfer that is called off is not announced as queued. -/
def Call.apply (scene : Scene ω) : Call → Scene ω
  | fail reason => { scene with transfer := scene.transfer.fail reason }
  | cancel => { scene with tokens := scene.tokens.cancel scene.transfer.token }
  | cancelToken t => { scene with tokens := scene.tokens.cancel t }
  | makeToken => { scene with tokens := scene.tokens.make.2 }
  | makeTokenFrom t => { scene with tokens := (scene.tokens.makeFrom t).2 }
  | setParam name value => { scene with transfer := scene.transfer.setParam name value }
  | setSize n => { scene with transfer := scene.transfer.setSize n }
  | announceQueued => if scene.isCancelled then scene else scene.markQueued
  | announceDone => scene.markDone
  | look => scene

/-- What calls make of a scene, one after another. -/
def callAll : List Call → Scene ω → Scene ω
  | [], scene => scene
  | c :: calls, scene => callAll calls (c.apply scene)

/-- The calls lead from one scene to the other, whatever becomes of the world meanwhile. -/
def Through (calls : List Call) (before after : Scene ω) : Prop :=
  after.bare = callAll calls before.bare

theorem bare_apply (c : Call) (scene : Scene ω) : (c.apply scene).bare = c.apply scene.bare := by
  cases c with
  | announceQueued =>
    show (if scene.isCancelled then scene else scene.markQueued).bare =
      if scene.isCancelled then scene.bare else scene.bare.markQueued
    split <;> rfl
  | _ => rfl

theorem callAll_append (calls more : List Call) (scene : Scene ω) :
    callAll (calls ++ more) scene = callAll more (callAll calls scene) := by
  induction calls generalizing scene with
  | nil => rfl
  | cons c calls ih => exact ih (c.apply scene)

theorem through_callAll (calls : List Call) (scene : Scene ω) :
    Through calls scene (callAll calls scene) := by
  induction calls generalizing scene with
  | nil => rfl
  | cons c calls ih =>
    exact (ih (c.apply scene)).trans (congrArg (callAll calls) (bare_apply c scene))

theorem Through.trans {calls more : List Call} {before mid after : Scene ω}
    (first : Through calls before mid) (second : Through more mid after) :
    Through (calls ++ more) before after := by
  rw [Through, callAll_append, ← first]
  exact second

theorem through_announceQueued {scene : Scene ω} (live : scene.isCancelled = false) :
    Through [.announceQueued] scene scene.markQueued := by
  show scene.markQueued.bare = if scene.isCancelled then scene.bare else scene.bare.markQueued
  rw [live]
  rfl

theorem through_announceQueued_of_cancelled {scene : Scene ω} (off : scene.isCancelled = true) :
    Through [.announceQueued] scene scene := by
  show scene.bare = if scene.isCancelled then scene.bare else scene.bare.markQueued
  rw [off]
  rfl

theorem through_announceDone (scene : Scene ω) : Through [.announceDone] scene scene.markDone := rfl

end Ferry.Transfer
