import TreeConsole.Command.Handler
import TreeConsole.Command.Policy
import TreeConsole.Proofs.Act.Triple

/-!
# What commands ask for

Each command makes requests of one or two kinds only, `edit` alone opens the editor, and
`toggle_write` alone touches the session. What a command does is therefore settled by these few
acts: where they do the same on two desks the command does the same on both, and a property that
they keep is kept by the command. No proof about commands has to look into a handler for it again.

## Main definitions

* `Keyword.mayRequest` — which requests a command may make

## Main results

* `Command.handle_alike` — a command does the same wherever its acts do
* `Command.handle_keeps` — what the acts of a command keep, the command keeps
* `Keyword.mutates_of_mayRequest` — a command that may change the store is marked as one that writes
-/

namespace TreeConsole

open Act (Alike Keeps)

namespace Keyword

/-- Whether a request is one that a command may make. -/
def mayRequest : Keyword → Request → Bool
  | .create, .ensurePath _ => true
  | .delete, .deleteNode _ recursive => !recursive
  | .edit, .readPayload _ | .edit, .setPayload _ _ => true
  | .get, .readPayload _ => true
  | .ls, .listChildren _ => true
  | .raw, .sendAdmin _ => true
  | .rmr, .deleteNode _ recursive => recursive
  | .set, .pathExists _ | .set, .setPayload _ _ | .set, .createNode _ _ => true
  | .stat, .describe _ => true
  | _, _ => false

/-- Only a command that writes may make a request that can change the store. -/
theorem mutates_of_mayRequest {k : Keyword} {q : Request} (h : k.mayRequest q = true)
    (hq : q.mutates = true) : k.mutates = true := by
  cases k
  case create | delete | edit | rmr | set => rfl
  all_goals
    cases q <;> first | exact absurd hq Bool.false_ne_true | exact absurd h Bool.false_ne_true

theorem reads_of_mayRequest {k : Keyword} {q : Request} (hk : k.mutates = false)
    (h : k.mayRequest q = true) : q.mutates = false := by
  rw [← Bool.not_eq_true] at hk ⊢
  exact fun hq => hk (mutates_of_mayRequest h hq)

end Keyword

namespace Command

variable {σ σ' ε ε' : Type} {client' : Client σ'} {client : Client σ} {editor' : Editor ε'}
  {editor : Editor ε} {R : Desk σ' ε' → Desk σ ε → Prop}

/-- The requests that a command may make do the same with two clients. -/
def AskAlike (R : Desk σ' ε' → Desk σ ε → Prop) (client' : Client σ') (client : Client σ)
    (k : Keyword) : Prop :=
  ∀ q, k.mayRequest q = true → Alike R (Desk.request client' q) (Desk.request client q)

/-! ### One lemma per handler -/

theorem pathArg_alike (c : Command) : Alike R c.pathArg c.pathArg := by
  unfold pathArg
  split
  · exact Act.alike_pure _
  · exact Act.alike_fail _

theorem payloadOf_alike {path : String}
    (h : Alike R (Desk.request client' (.readPayload path))
      (Desk.request client (.readPayload path))) :
    Alike R (payloadOf client' path) (payloadOf client path) := by
  refine h.bind fun payload => ?_
  cases payload with
  | none => exact Act.alike_fail _
  | some payload => exact Act.alike_pure _

theorem markParents_alike {path : String} {names : List String}
    (h : AskAlike R client' client .ls) :
    Alike R (markParents client' path names) (markParents client path names) := by
  induction names with
  | nil => exact Act.alike_pure _
  | cons name names ih =>
    refine (h (.listChildren (joinChild path name)) rfl).bind fun _ => ?_
    exact ih.bind fun _ => Act.alike_pure _

theorem list_alike (c : Command) (h : AskAlike R client' client .ls)
    (hsession : ∀ d' d, R d' d → d'.session = d.session) :
    Alike R (c.list client') (c.list client) := by
  refine c.pathArg_alike.bind fun path => (h (.listChildren path) rfl).bind fun _ => ?_
  refine (markParents_alike h).bind fun names => ?_
  refine (Act.alike_view fun d' d hR => ?_).bind fun _ => Act.alike_pure _
  rw [hsession d' d hR]

theorem display_alike (c : Command) (h : AskAlike R client' client .get) :
    Alike R (c.display client') (c.display client) := by
  refine c.pathArg_alike.bind fun path => ?_
  exact (payloadOf_alike (h (.readPayload path) rfl)).bind fun _ => Act.alike_pure _

theorem make_alike (c : Command) (h : AskAlike R client' client .create) :
    Alike R (c.make client') (c.make client) := by
  refine c.pathArg_alike.bind fun path => ?_
  exact (h (.ensurePath path) rfl).bind fun _ => Act.alike_pure _

theorem store_alike {path : String} {payload : Bytes} (h : AskAlike R client' client .set) :
    Alike R (store client' path payload) (store client path payload) := by
  refine (h (.pathExists path) rfl).bind fun (isThere : Bool) => ?_
  cases isThere with
  | false => exact h (.createNode path payload) rfl
  | true => exact h (.setPayload path payload) rfl

theorem write_alike (c : Command) (h : AskAlike R client' client .set) :
    Alike R (c.write client') (c.write client) :=
  c.pathArg_alike.bind fun _ => (store_alike h).bind fun _ => Act.alike_pure _

theorem remove_alike (c : Command) (recursive : Bool)
    (h : AskAlike R client' client (if recursive then .rmr else .delete)) :
    Alike R (c.remove client' recursive) (c.remove client recursive) := by
  refine c.pathArg_alike.bind fun path => ?_
  cases recursive with
  | false => exact (h (.deleteNode path false) rfl).bind fun _ => Act.alike_pure _
  | true => exact (h (.deleteNode path true) rfl).bind fun _ => Act.alike_pure _

theorem describe_alike (c : Command) (h : AskAlike R client' client .stat) :
    Alike R (c.describe client') (c.describe client) := by
  refine c.pathArg_alike.bind fun path => ?_
  exact (h (.describe path) rfl).bind fun _ => Act.alike_pure _

theorem sendWord_alike (c : Command) (h : AskAlike R client' client .raw) :
    Alike R (c.sendWord client') (c.sendWord client) := by
  unfold sendWord
  split
  · exact Act.alike_fail _
  · exact (h (.sendAdmin _) rfl).bind fun _ => Act.alike_pure _

theorem switchMode_alike
    (h : Alike R (Desk.updateSession Session.toggleWrite) (Desk.updateSession Session.toggleWrite))
    (hsession : ∀ d' d, R d' d → d'.session = d.session) : Alike R switchMode switchMode := by
  refine h.bind fun _ => (Act.alike_view fun d' d hR => ?_).bind fun _ => Act.alike_pure _
  rw [hsession d' d hR]

theorem editPayload_alike (c : Command) (h : AskAlike R client' client .edit)
    (hedit : ∀ path payload,
      Alike R (Desk.openEditor editor' path payload) (Desk.openEditor editor path payload)) :
    Alike R (c.editPayload client' editor') (c.editPayload client editor) := by
  refine c.pathArg_alike.bind fun path => ?_
  refine (payloadOf_alike (h (.readPayload path) rfl)).bind fun payload => ?_
  refine (hedit path payload).bind fun new => ?_
  split
  · exact Act.alike_pure _
  · exact (h (.setPayload path new) rfl).bind fun _ => Act.alike_pure _

/-! ### All handlers -/

/-- A command does the same on two desks if the requests that it may make do, and the editor if it
opens it, and the change of the mode if it makes it. -/
theorem handle_alike (c : Command) (hrequest : AskAlike R client' client c.keyword)
    (hedit : c.keyword = .edit → ∀ path payload,
      Alike R (Desk.openEditor editor' path payload) (Desk.openEditor editor path payload))
    (hmode : c.keyword = .toggleWrite →
      Alike R (Desk.updateSession Session.toggleWrite) (Desk.updateSession Session.toggleWrite))
    (hsession : ∀ d' d, R d' d → d'.session = d.session) :
    Alike R (c.handle client' editor') (c.handle client editor) := by
  unfold handle
  cases hk : c.keyword <;> rw [hk] at hrequest hedit hmode
  case close | exit | quit | help => exact Act.alike_pure _
  case create => exact c.make_alike hrequest
  case delete => exact c.remove_alike false hrequest
  case edit => exact c.editPayload_alike hrequest (hedit rfl)
  case get => exact c.display_alike hrequest
  case ls => exact c.list_alike hrequest hsession
  case raw => exact c.sendWord_alike hrequest
  case rmr => exact c.remove_alike true hrequest
  case set => exact c.write_alike hrequest
  case stat => exact c.describe_alike hrequest
  case toggleWrite => exact switchMode_alike (hmode rfl) hsession

/-! ### What is kept -/

section Keeps

variable {P : Desk σ ε → Prop}

theorem pathArg_keeps (c : Command) : Keeps P c.pathArg := Act.keeps_iff_alike.mpr c.pathArg_alike

theorem payloadOf_keeps {path : String} (h : Keeps P (Desk.request client (.readPayload path))) :
    Keeps P (payloadOf client path) :=
  Act.keeps_iff_alike.mpr (payloadOf_alike (Act.keeps_iff_alike.mp h))

/-- What is kept by the requests that a command may make, by the editor if it opens it, and by the
change of the mode if it makes it, is kept by the command. -/
theorem handle_keeps (c : Command)
    (hrequest : ∀ q, c.keyword.mayRequest q = true → Keeps P (Desk.request client q))
    (hedit : c.keyword = .edit → ∀ path payload, Keeps P (Desk.openEditor editor path payload))
    (hmode : c.keyword = .toggleWrite → Keeps P (Desk.updateSession Session.toggleWrite)) :
    Keeps P (c.handle client editor) := by
  refine Act.keeps_iff_alike.mpr (c.handle_alike ?_ ?_ ?_ ?_)
  · exact fun q hq => Act.keeps_iff_alike.mp (hrequest q hq)
  · exact fun hk path payload => Act.keeps_iff_alike.mp (hedit hk path payload)
  · exact fun hk => Act.keeps_iff_alike.mp (hmode hk)
  · exact fun _ _ hR => congrArg Desk.session hR.1

end Keeps

end Command
end TreeConsole
