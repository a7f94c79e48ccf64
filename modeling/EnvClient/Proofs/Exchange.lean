import EnvClient.Proofs.Target

/-! What becomes of one request: it is kept by the network, takes the next reply, and its result
depends on that reply alone. -/
namespace EnvClient

instance decidableEqExcept {ε α : Type} [DecidableEq ε] [DecidableEq α] :
    DecidableEq (Except ε α)
  | .ok a, .ok b => decidable_of_iff (a = b) ⟨congrArg Except.ok, Except.ok.inj⟩
  | .error e, .error f => decidable_of_iff (e = f) ⟨congrArg Except.error, Except.error.inj⟩
  | .ok _, .error _ => isFalse nofun
  | .error _, .ok _ => isFalse nofun

section
variable {ε σ α β : Type} {s s' : σ}

theorem run_bind_ok {x : ExceptT ε (StateM σ) α} {a : α} (h : x.run s = (.ok a, s'))
    (f : α → ExceptT ε (StateM σ) β) : (x >>= f).run s = (f a).run s' := by
  rw [ExceptT.run_bind]
  change StateT.bind x.run _ s = _
  simp only [StateT.bind, h]
  rfl

theorem run_bind_error {x : ExceptT ε (StateM σ) α} {e : ε} (h : x.run s = (.error e, s'))
    (f : α → ExceptT ε (StateM σ) β) : (x >>= f).run s = (.error e, s') := by
  rw [ExceptT.run_bind]
  change StateT.bind x.run _ s = _
  simp only [StateT.bind, h]
  rfl

end

namespace Http

def Reply.answer : Reply → Except ClientError Answer
  | .whole status body =>
    .ok ⟨status, Text.Utf8.lossy (if isBodiless status then [] else body)⟩
  | .cut _ => .error (.transport .bodyCut)

def Reply.read {α : Type} (read : Answer → Except ClientError (Response α)) (r : Reply) :
    Except ClientError (Response α) :=
  r.answer.bind fun answer => answer.success.bind read

def Network.after (n : Network) (requests : List Request) (replies : List Reply) : Network :=
  { n with replies, sent := n.sent ++ requests }

@[simp] theorem Network.replies_after (n : Network) (requests : List Request)
    (replies : List Reply) : (n.after requests replies).replies = replies := rfl

theorem Network.after_after (n : Network) (first second : List Request)
    (replies replies' : List Reply) :
    (n.after first replies).after second replies' = n.after (first ++ second) replies' := by
  simp only [after, List.append_assoc]

theorem run_send_cons {url : Url} {request : Request} {n : Network} {r : Reply}
    {replies : List Reply} (hreach : n.reaches url.origin = true) (hreplies : n.replies = r :: replies) :
    (send url request).run n = (r.answer, n.after [request] replies) := by
  change send url request n = _
  rw [send, Network.send, hreach, hreplies]
  cases r <;> rfl

end Http

namespace Api

variable {α : Type} {api : Api} {op : Operation} {url : Url} {n : Http.Network}

theorem run_call_cons (read : Http.Answer → Except ClientError (Response α)) {r : Http.Reply}
    {replies : List Http.Reply} (h : api.address? op = some url)
    (hreach : n.reaches url.origin = true) (hreplies : n.replies = r :: replies) :
    (api.call op read).run n = (r.read read, n.after [api.request op url] replies) := by
  have hexchange : (api.exchange op).run n = (r.answer, n.after [api.request op url] replies) := by
    rw [exchange, h]
    exact Http.run_send_cons hreach hreplies
  rw [call, Http.Reply.read]
  cases hanswer : r.answer with
  | error e => exact run_bind_error (hanswer ▸ hexchange) _
  | ok answer =>
    rw [run_bind_ok (hanswer ▸ hexchange)]
    change (MonadExcept.ofExcept (answer.success.bind read) : Http.Exchange (Response α)).run _ =
      (answer.success.bind read, _)
    cases answer.success.bind read <;> rfl

end Api
end EnvClient
