import Mathlib.Logic.Function.Basic
import Mathlib.Data.List.Basic

/-! Messages between parties, in a queue from each to each. -/

namespace Channels

variable {Party Message : Type*} [DecidableEq Party]

/-- The messages on their way from one party to another, oldest first. -/
abbrev Flight (Party Message : Type*) := Party → Party → List Message

def Quiet (flight : Flight Party Message) : Prop := ∀ sender receiver, flight sender receiver = []

/-- Send a message to every other party that is there. -/
def broadcast (flight : Flight Party Message) (present : Party → Bool) (sender : Party) (message : Message) :
    Flight Party Message :=
  fun from_ to_ =>
    if from_ = sender ∧ to_ ≠ sender ∧ present to_ = true then flight from_ to_ ++ [message] else flight from_ to_

/-- Take the oldest message from a queue. -/
def take (flight : Flight Party Message) (sender receiver : Party) : Flight Party Message :=
  fun from_ to_ => if from_ = sender ∧ to_ = receiver then (flight from_ to_).tail else flight from_ to_

/-- Lose what is on its way to a party. -/
def close (flight : Flight Party Message) (receiver : Party) : Flight Party Message :=
  fun from_ to_ => if to_ = receiver then [] else flight from_ to_

variable {flight : Flight Party Message} {present : Party → Bool} {sender receiver : Party} {message : Message}

theorem broadcast_to (other : receiver ≠ sender) (there : present receiver = true) :
    broadcast flight present sender message sender receiver = flight sender receiver ++ [message] :=
  if_pos ⟨rfl, other, there⟩

theorem broadcast_cases (flight : Flight Party Message) (present : Party → Bool) (sender : Party) (message : Message)
    (from_ to_ : Party) :
    (from_ = sender ∧ to_ ≠ sender ∧ present to_ = true ∧
      broadcast flight present sender message from_ to_ = flight from_ to_ ++ [message]) ∨
    broadcast flight present sender message from_ to_ = flight from_ to_ := by
  unfold broadcast
  split
  · rename_i sent
    exact .inl ⟨sent.1, sent.2.1, sent.2.2, rfl⟩
  · exact .inr rfl

theorem take_self : take flight sender receiver sender receiver = (flight sender receiver).tail := if_pos ⟨rfl, rfl⟩

theorem take_other {from_ to_ : Party} (other : ¬ (from_ = sender ∧ to_ = receiver)) :
    take flight sender receiver from_ to_ = flight from_ to_ := if_neg other

theorem close_self (from_ : Party) : close flight receiver from_ receiver = [] := if_pos rfl

theorem close_other (from_ : Party) {to_ : Party} (other : to_ ≠ receiver) :
    close flight receiver from_ to_ = flight from_ to_ := if_neg other

end Channels
