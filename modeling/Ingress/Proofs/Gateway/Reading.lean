import Ingress.Proofs.Gateway.Run
import Ingress.Proofs.RateLimit.Run
import Mathlib

/-!
# Runs in which the rate limiter is read

The rate limiter of a gateway also answers how full the windows of clients are, and forgets idle ones when
it is asked to. Reading prunes windows, so a read is a step of a run like any other.

* `Move` : an action, or a request to the rate limiter that is not a check;
* `Gateway.move`, `Gateway.play` : a move, and any number of them, with the messages and their outcomes.
-/

namespace Ingress

namespace Gateway

/-- What can happen to a gateway whose rate limiter is read, or told to forget idle clients. -/
inductive Move where
  | act (x : Action)
  | ask (request : RateLimit.Request) (reads : request.isCheck = false)

def onLimiter (g : Gateway) (f : RateLimit.Limiter → RateLimit.Limiter) : Gateway :=
  { g with pipeline := { g.pipeline with limiter := f g.pipeline.limiter } }

def move (g : Gateway) : Move → List Exchange × Gateway
  | .act x => g.act x
  | .ask request _ => ([], g.onLimiter fun l => (l.answer ⟨g.clock, request⟩).2)

def play (g : Gateway) : List Move → List Exchange × Gateway
  | [] => ([], g)
  | x :: rest => ((g.move x).1 ++ ((g.move x).2.play rest).1, ((g.move x).2.play rest).2)

theorem play_cons (g : Gateway) (x : Move) (rest : List Move) :
    g.play (x :: rest) =
      ((g.move x).1 ++ ((g.move x).2.play rest).1, ((g.move x).2.play rest).2) := rfl

end Gateway

end Ingress
