import Mathlib.Data.List.AList
import Rwhois.Query
import Rwhois.Wire.Banner
import Rwhois.Wire.Response

/-!
# Context

What a connection works with: its session (`session.rs`), the consumer's
handlers (`handler.rs`), the directive registry (`directive/mod.rs`) and
the server context that holds them (`context.rs`).

Handlers are the consumer's code behind a shared reference. All they know
and all they may change outside the session is ONE state `ω`, the world,
which every connection of a server shares. `ω` and the handlers are
arbitrary, so a claim about every context is a claim about every pattern
of handler results. A handler always comes back here; a handler that
panics is an event of the accept loop.
-/

namespace Rwhois

open RustStd

/-! ## Session -/

inductive SessionState where
  | query
  | spool
  deriving Repr, DecidableEq

structure SocketAddr where
  ip : Str
  port : UInt16
  deriving Repr, DecidableEq

/-- `Duration::from_secs`. Durations are in nanoseconds. -/
def fromSecs (secs : Nat) : Nat := secs * 1000000000

/-- Mutable state of one connection. -/
structure Session where
  peer : SocketAddr
  state : SessionState
  holdConnect : Bool
  hitLimit : Nat
  forward : Bool
  display : Str
  secureMode : Bool
  clientVendorId : Option Str
  idleTimeout : Nat
  registerEmail : Option Str
  registerAction : Option Str
  deriving Repr, DecidableEq

namespace Session

def new (peer : SocketAddr) : Session where
  peer := peer
  state := .query
  holdConnect := false
  hitLimit := 0
  forward := false
  display := "dump".toList
  secureMode := false
  clientVendorId := none
  idleTimeout := fromSecs 120
  registerEmail := none
  registerAction := none

def isSpooling (self : Session) : Bool := self.state == .spool

end Session

/-! ## Handlers -/

/-- A handler call on what it is lent. -/
abbrev HandlerFuture (σ : Type) := σ → Except Error Unit × σ

structure QueryHandler (ω : Type) where
  handle : Query → HandlerFuture (ResponseWriter × ω)

structure ClassProvider (ω : Type) where
  list (authArea : Str) (classes : List Str) : HandlerFuture (ResponseWriter × ω)

structure SchemaProvider (ω : Type) where
  list (authArea : Str) (classes : List Str) : HandlerFuture (ResponseWriter × ω)

structure SoaProvider (ω : Type) where
  list (authAreas : List Str) : HandlerFuture (ResponseWriter × ω)

structure XferProvider (ω : Type) where
  xfer (args : Str) : HandlerFuture (ResponseWriter × ω)

/-- The registration flow. No method is told which connection calls. -/
structure RegisterHandler (ω : Type) where
  begin (action email args : Str) : HandlerFuture ω
  acceptLine (line : Str) : HandlerFuture ω
  finish : HandlerFuture (ResponseWriter × ω)

structure ReferralProvider (ω : Type) where
  referrals : Query → HandlerFuture (ResponseWriter × ω)

/-- The only handler that is lent the session. -/
structure AuthHandler (ω : Type) where
  authenticate (args : Str) : HandlerFuture (Session × ResponseWriter × ω)

/-! ## Directives -/

inductive DirectiveOutcome where
  | ok
  | quit
  | handled
  deriving Repr, DecidableEq

/-- The directives of `directive/builtin.rs`, in the order of
`register_all`. -/
inductive Builtin where
  | quit
  | holdConnect
  | limit
  | forward
  | display
  | status
  | rwhois
  | directiveList
  | cls
  | schema
  | soa
  | xfer
  | register
  | security
  | notify
  deriving Repr, DecidableEq

namespace Builtin

def all : List Builtin :=
  [quit, holdConnect, limit, forward, display, status, rwhois, directiveList, cls, schema, soa,
    xfer, register, security, notify]

def name : Builtin → Str
  | quit => "quit".toList
  | holdConnect => "holdconnect".toList
  | limit => "limit".toList
  | forward => "forward".toList
  | display => "display".toList
  | status => "status".toList
  | rwhois => "rwhois".toList
  | directiveList => "directive".toList
  | cls => "class".toList
  | schema => "schema".toList
  | soa => "soa".toList
  | xfer => "xfer".toList
  | register => "register".toList
  | security => "security".toList
  | notify => "notify".toList

def CAP_HOLD : UInt32 := 0x00000001
def CAP_LIMIT : UInt32 := 0x00000002
def CAP_FORWARD : UInt32 := 0x00000004
def CAP_DISPLAY : UInt32 := 0x00000008
def CAP_STATUS : UInt32 := 0x00000010

def capability : Builtin → UInt32
  | holdConnect => CAP_HOLD
  | limit => CAP_LIMIT
  | forward => CAP_FORWARD
  | display => CAP_DISPLAY
  | status => CAP_STATUS
  | _ => 0

def description : Builtin → Str
  | quit => "close the session".toList
  | holdConnect => "hold the connection open across queries".toList
  | limit => "cap the number of records returned per query".toList
  | forward => "follow referrals on behalf of the client".toList
  | display => "select an output display format".toList
  | status => "report current session settings".toList
  | rwhois => "negotiate version / record client identifier".toList
  | directiveList => "list directives supported by this server".toList
  | cls => "list class metadata for an authority area".toList
  | schema => "fetch attribute schema for a class".toList
  | soa => "fetch start-of-authority records".toList
  | xfer => "bulk transfer of records".toList
  | register => "submit object registration / modification".toList
  | security => "negotiate authentication / security".toList
  | notify => "post a record-update notification (default no-op)".toList

end Builtin

/-- What `Directive::run` does. A directive of the consumer has the
context at hand when it is built; a built-in one is run by
`Builtin.run`. -/
inductive Directive.Body (ω : Type) where
  | builtin (b : Builtin)
  | custom (run : Str → Session × ResponseWriter × ω →
      Except Error DirectiveOutcome × (Session × ResponseWriter × ω))

structure Directive (ω : Type) where
  name : Str
  capability : UInt32
  description : Str
  body : Directive.Body ω

def Builtin.directive {ω : Type} (b : Builtin) : Directive ω where
  name := b.name
  capability := b.capability
  description := b.description
  body := .builtin b

/-! ## Registry -/

/-- Directives by lowercased name. The order of the entries stands for
the unspecified order of the hash map. -/
structure Registry (ω : Type) where
  byName : AList fun _ : Str => Directive ω

namespace Registry

variable {ω : Type}

def new : Registry ω := { byName := ∅ }

/-- `register` and `register_arc`: register or replace. -/
def register (self : Registry ω) (directive : Directive ω) : Registry ω where
  byName := self.byName.insert (toAsciiLowercase directive.name) directive

def get (self : Registry ω) (name : Str) : Option (Directive ω) := self.byName.lookup name

def iter (self : Registry ω) : List (Str × Directive ω) :=
  self.byName.entries.map fun entry => (entry.1, entry.2)

def capabilityMask (self : Registry ω) : UInt32 :=
  self.byName.entries.foldl (fun acc entry => acc ||| entry.2.capability) 0

def registerAll (self : Registry ω) : Registry ω :=
  (Builtin.all.map Builtin.directive).foldl register self

def withBuiltins : Registry ω := registerAll new

end Registry

/-! ## Server context -/

structure ServerContext (ω : Type) where
  directives : Registry ω
  hostname : Str
  idleTimeout : Nat
  maxLine : Nat
  query : Option (QueryHandler ω)
  cls : Option (ClassProvider ω)
  schema : Option (SchemaProvider ω)
  soa : Option (SoaProvider ω)
  xfer : Option (XferProvider ω)
  register : Option (RegisterHandler ω)
  referral : Option (ReferralProvider ω)
  auth : Option (AuthHandler ω)

def MAX_LINE : Nat := 512

/-- `ServerBuilder::new().into_context()`: the built-in directives and no
handler. -/
def ServerContext.new {ω : Type} : ServerContext ω where
  directives := .withBuiltins
  hostname := "localhost".toList
  idleTimeout := fromSecs 120
  maxLine := MAX_LINE
  query := none
  cls := none
  schema := none
  soa := none
  xfer := none
  register := none
  referral := none
  auth := none

/-- A registration handler that accepts everything. -/
def RegisterHandler.accepting {ω : Type} : RegisterHandler ω where
  begin _ _ _ world := (.ok (), world)
  acceptLine _ world := (.ok (), world)
  finish lent := (.ok (), lent)

/-- The greeting, sent to a new peer and again on `-rwhois`. -/
def ServerContext.banner {ω : Type} (self : ServerContext ω) : Banner :=
  .single 1 5 { responseId := self.directives.capabilityMask &&& 0x00FFFFFF, extraId := 0 }
    self.hostname (some "(rwhois rust server)".toList)

/-! ## Lookup -/

def Builtin.ofName (name : Str) : Option Builtin := Builtin.all.find? fun b => b.name = name

theorem Builtin.ofName_name (b : Builtin) : Builtin.ofName b.name = some b := by
  cases b <;> decide

theorem Builtin.name_of_ofName {name : Str} {b : Builtin} (h : Builtin.ofName name = some b) :
    b.name = name := by
  simpa using List.find?_some h

namespace Registry

variable {ω : Type}

theorem get_register (r : Registry ω) (d : Directive ω) (name : Str) :
    (r.register d).get name =
      if name = toAsciiLowercase d.name then some d else r.get name := by
  unfold get register
  split
  · rename_i h
    subst h
    exact AList.lookup_insert _
  · rename_i h
    exact AList.lookup_insert_ne h

/-- After any registrations a name stands for the last directive that was
registered under it. -/
theorem get_foldl_register (ds : List (Directive ω)) (r : Registry ω) (name : Str) :
    (ds.foldl register r).get name =
      (ds.reverse.find? fun d => name = toAsciiLowercase d.name).or (r.get name) := by
  induction ds generalizing r with
  | nil => rfl
  | cons d ds ih =>
      rw [List.foldl_cons, ih, List.reverse_cons, List.find?_append, get_register, Option.or_assoc]
      congr 1
      by_cases h : name = toAsciiLowercase d.name <;> simp [h]

/-- In the built-in registry a name stands for the directive that has it. -/
theorem get_withBuiltins (name : Str) :
    (withBuiltins : Registry ω).get name = (Builtin.ofName name).map Builtin.directive := by
  have hlower : ∀ b : Builtin, toAsciiLowercase b.name = b.name := by
    intro b
    cases b <;> decide
  have hget : (withBuiltins : Registry ω).get name =
      (Builtin.all.reverse.find? fun b => name = b.name).map Builtin.directive := by
    rw [withBuiltins, registerAll, get_foldl_register, ← List.map_reverse, List.find?_map]
    show ((Builtin.all.reverse.find? fun b => name = toAsciiLowercase b.name).map _).or none = _
    rw [Option.or_none]
    simp only [hlower]
  rw [hget]
  congr 1
  cases hb : Builtin.all.reverse.find? fun b => name = b.name with
  | some b =>
      have hname : name = b.name := by simpa using List.find?_some hb
      rw [hname, Builtin.ofName_name]
  | none =>
      symm
      rw [Builtin.ofName, List.find?_eq_none]
      intro b hmem
      have hne := List.find?_eq_none.mp hb b (by simpa using hmem)
      simpa [eq_comm] using hne

end Registry

end Rwhois
