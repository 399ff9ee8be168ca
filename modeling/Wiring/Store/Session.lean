import Wiring.Store

/-!
# Sessions with a store

Commands that put, offer, look up and forget instances, which are numbers here. A producer makes a
number and may give commands to the same store before it does; a lookup that meets a producer is
answered after all of them.

## Main definitions

* `Wiring.Store.Command`, `Wiring.Store.Reply` — the commands and their answers.
* `Wiring.Store.Job`, `Wiring.Store.work` — what is left to do, and the answers to all of it.
* `Wiring.Store.session` — the answers to a list of commands.
-/

namespace Wiring.Store

/-- What to do with a store of numbers. -/
inductive Command where
  | put (name : String) (value : Int)
  /-- Offers a producer that gives commands and then makes the value. -/
  | offer (name : String) (value : Int) (steps : List Command)
  | final (name : String)
  | early (name : String)
  /-- Looks up an early reference, with a producer if need be. -/
  | obtain (name : String)
  | remove (name : String)
  | isFinal (name : String)
  | isStaged (name : String)
  | discard (name : String)
  | clear
  | inspect

/-- A producer: what it makes, and the commands that it gives before. -/
abbrev Production : Type := Int × List Command

/-- The answer to a command. -/
inductive Reply where
  | nothing
  | flag (b : Bool)
  | value (v : Option Int)
  /-- A producer starts to make the value. -/
  | producing (v : Int)
  | state (names : List String) (count finals : Nat) (text : String)

/-- Something that is left to do. -/
inductive Job where
  | command (c : Command)
  /-- Report the value that the producer of the name has made. -/
  | memoize (name : String) (value : Int)

mutual

/-- The number of jobs that a command can lead to: itself, and for an offer the commands of the
producer and the report of its value. -/
def Command.weight : Command → Nat
  | .offer _ _ steps => weightAll steps + 2
  | _ => 1

/-- The number of jobs that commands can lead to. -/
def weightAll : List Command → Nat
  | [] => 0
  | c :: rest => c.weight + weightAll rest

end

/-- Does a job: the answers to it, the jobs that have to be done before the others, and the store.
-/
def perform (s : Store Int Production) : Job → List Reply × List Job × Store Int Production
  | .memoize n v => ([.value (some (s.memoize n v).1)], [], (s.memoize n v).2)
  | .command c =>
    match c with
    | .put n v => ([.nothing], [], s.put n v)
    | .offer n v steps => ([.flag (s.offer n (v, steps)).1], [], (s.offer n (v, steps)).2)
    | .final n => ([.value (s.final? n)], [], s)
    | .early n => ([.value (s.early? n)], [], s)
    | .obtain n =>
      match s.seek n with
      | .nothing => ([.value none], [], s)
      | .early i => ([.value (some i)], [], s)
      | .pending (v, steps) rest =>
        ([.producing v], steps.map .command ++ [.memoize n v], rest)
    | .remove n => ([.value (s.remove n).1], [], (s.remove n).2)
    | .isFinal n => ([.flag (s.isFinal n)], [], s)
    | .isStaged n => ([.flag (s.isStaged n)], [], s)
    | .discard n => ([.nothing], [], s.discard n)
    | .clear => ([.nothing], [], s.clear)
    | .inspect => ([.state s.names s.count s.finalCount s.shape.inline], [], s)

/-- The answers to at most `fuel` jobs. -/
def work : Nat → Store Int Production → List Job → List Reply
  | _, _, [] => []
  | 0, _, _ :: _ => []
  | fuel + 1, s, job :: rest =>
    let (replies, first, s) := s.perform job
    replies ++ work fuel s (first ++ rest)

/-- The answers of a session that starts with an empty store. -/
def session (commands : List Command) : List Reply :=
  work (weightAll commands) empty (commands.map .command)

end Wiring.Store
