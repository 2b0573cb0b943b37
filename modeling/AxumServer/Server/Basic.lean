import AxumServer.Handle

/-! # Configuration of a server

The acceptor, the make service and hyper's connection builder stay outside: they
appear as the answers their futures give when the server polls them.
-/

namespace AxumServer

variable {A E B : Type}

/-- `std::io::Error`: one that came from outside, or one made by `io_other`. -/
inductive IoError (E B : Type) where
  | raw (e : E)
  | other (b : B)
  deriving DecidableEq, Repr

def ioOther (error : B) : IoError E B := .other error

inductive HttpVersion where
  | http1
  | http2
  deriving DecidableEq, Repr

inductive Listener (A : Type) where
  | bind (addr : A)
  | ready
  deriving DecidableEq, Repr

def Listener.isReady : Listener A → Bool
  | .bind _ => false
  | .ready => true

/-- `Server`. Of the accept error handler only its presence is kept: a call of it
is an event of the run. -/
structure Server (A : Type) where
  listener : Listener A
  httpVersion : Option HttpVersion := none
  firstRequestTimeout : Option Duration := none
  acceptErrorHandler : Bool := false
  deriving DecidableEq, Repr

namespace Server

def bind (addr : A) : Server A := { listener := .bind addr }

def fromListener : Server A := { listener := .ready }

end Server

end AxumServer
