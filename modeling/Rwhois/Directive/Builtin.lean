import Mathlib.Data.List.Sort
import Rwhois.Context
import Rwhois.RustStd.Exec

/-!
# Directive — Builtin

The protocol-level directives (`directive/builtin.rs`). Each one is a body
over the environment of the line it answers: the session, the response so
far, and the world behind the handlers.
-/

namespace Rwhois

open RustStd

variable {ω : Type}

/-- What a directive can reach. -/
structure Env (ω : Type) where
  session : Session
  out : ResponseWriter
  world : ω

namespace Env

/-- A handler call that is lent `out`. -/
def write (f : HandlerFuture (ResponseWriter × ω)) : Exec (Env ω) Error Unit :=
  Exec.callOn (fun env => (env.out, env.world))
    (fun lent env => { env with out := lent.1, world := lent.2 }) f

/-- A handler call that is lent nothing. -/
def ask (f : HandlerFuture ω) : Exec (Env ω) Error Unit :=
  Exec.callOn Env.world (fun lent env => { env with world := lent }) f

/-- A call that is lent the session as well. -/
def lend {α : Type} (f : Session × ResponseWriter × ω → Except Error α × (Session × ResponseWriter × ω)) :
    Exec (Env ω) Error α :=
  Exec.callOn (fun env => (env.session, env.out, env.world))
    (fun lent _ => { session := lent.1, out := lent.2.1, world := lent.2.2 }) f

def emit (f : ResponseWriter → ResponseWriter) : Exec (Env ω) Error Unit :=
  Exec.modify fun env => { env with out := f env.out }

def setSession (f : Session → Session) : Exec (Env ω) Error Unit :=
  Exec.modify fun env => { env with session := f env.session }

end Env

namespace Builtin

/-! ## Session settings -/

def splitArgs (args : Str) : List Str := splitWhitespace args

def Quit.run : Exec (Env ω) Error DirectiveOutcome := pure .quit

/-- `-holdconnect` and `-forward`: a switch that is on without an
argument. -/
def switch (name : Str) (set : Bool → Session → Session) (args : Str) :
    Exec (Env ω) Error DirectiveOutcome :=
  let other := toAsciiLowercase (trim args)
  if other = [] ∨ other = "on".toList then do
    Env.setSession (set true)
    pure .ok
  else if other = "off".toList then do
    Env.setSession (set false)
    pure .ok
  else
    Exec.throw (.protocol .INVALID_DIRECTIVE_SYNTAX (name ++ ": ".toList ++ other))

def HoldConnect.run (args : Str) : Exec (Env ω) Error DirectiveOutcome :=
  switch "holdconnect".toList (fun on s => { s with holdConnect := on }) args

def Limit.run (args : Str) : Exec (Env ω) Error DirectiveOutcome :=
  match parseUsize (trim args) with
  | some n => do
      Env.setSession fun s => { s with hitLimit := n }
      pure .ok
  -- the argument is parsed trimmed but reported as it came
  | none => Exec.throw (.protocol .INVALID_DIRECTIVE_SYNTAX ("limit: ".toList ++ args))

def Forward.run (args : Str) : Exec (Env ω) Error DirectiveOutcome :=
  switch "forward".toList (fun on s => { s with forward := on }) args

def Display.run (args : Str) : Exec (Env ω) Error DirectiveOutcome :=
  let name := trim args
  if name = [] then do
    let env ← Exec.get
    Env.emit (·.tagged .display ("name:".toList ++ env.session.display))
    Env.emit (·.endBlock .display)
    pure .ok
  else if eqIgnoreAsciiCase name "dump".toList then do
    Env.setSession fun s => { s with display := "dump".toList }
    pure .ok
  else
    Exec.throw (.protocol .INVALID_DIRECTIVE_SYNTAX ("display: ".toList ++ name))

def onOff (b : Bool) : Str := if b then "on".toList else "off".toList

def Status.run : Exec (Env ω) Error DirectiveOutcome := do
  let env ← Exec.get
  let s := env.session
  Env.emit (·.tagged .status ("limit:".toList ++ RustStd.display s.hitLimit))
  Env.emit (·.tagged .status ("hold:".toList ++ onOff s.holdConnect))
  Env.emit (·.tagged .status ("forward:".toList ++ onOff s.forward))
  Env.emit (·.tagged .status ("display:".toList ++ s.display))
  Env.emit (·.tagged .status ("contact:".toList ++ s.clientVendorId.getD []))
  Env.emit (·.endBlock .status)
  pure .ok

set_option linter.dupNamespace false in
def Rwhois.run (ctx : ServerContext ω) (args : Str) : Exec (Env ω) Error DirectiveOutcome := do
  let v := trim args
  -- without an argument an earlier identifier is kept
  Env.setSession fun s => if v = [] then s else { s with clientVendorId := some v }
  Env.emit (·.rawLine ctx.banner.toLine)
  pure .ok

/-! ## Listings -/

/-- The record lines of one directive. -/
def DirectiveList.entry (ctx : ServerContext ω) (name : Str) : Exec (Env ω) Error Unit :=
  match ctx.directives.get name with
  | some d => do
      Env.emit (·.tagged .directive ("Directive:".toList ++ d.name))
      if d.description = [] then
        pure ()
      else
        Env.emit (·.tagged .directive ("Description:".toList ++ d.description))
  | none => pure ()

def DirectiveList.run (ctx : ServerContext ω) : Exec (Env ω) Error DirectiveOutcome := do
  let names := (ctx.directives.iter.map Prod.fst).insertionSort fun a b => strLe a b
  names.forM (DirectiveList.entry ctx)
  Env.emit (·.endBlock .directive)
  pure .ok

def parseAreaClasses (args : Str) : Str × List Str :=
  let parts := splitArgs args
  (parts.head?.getD [], parts.drop 1)

/-- `-class`, `-schema`, `-soa` and `-xfer`: the provider writes the block
and the directive closes it. -/
def provided (name : Str) (tag : Tag) (provider : Option (HandlerFuture (ResponseWriter × ω))) :
    Exec (Env ω) Error DirectiveOutcome :=
  match provider with
  | none => Exec.throw (.protocol .DIRECTIVE_NOT_AVAILABLE name)
  | some list => do
      Env.write list
      Env.emit (·.endBlock tag)
      pure .ok

def Class.run (ctx : ServerContext ω) (args : Str) : Exec (Env ω) Error DirectiveOutcome :=
  let (area, classes) := parseAreaClasses args
  provided "class".toList .cls (ctx.cls.map fun p => p.list area classes)

def Schema.run (ctx : ServerContext ω) (args : Str) : Exec (Env ω) Error DirectiveOutcome :=
  let (area, classes) := parseAreaClasses args
  provided "schema".toList .schema (ctx.schema.map fun p => p.list area classes)

def Soa.run (ctx : ServerContext ω) (args : Str) : Exec (Env ω) Error DirectiveOutcome :=
  provided "soa".toList .soa (ctx.soa.map fun p => p.list (splitArgs args))

def Xfer.run (ctx : ServerContext ω) (args : Str) : Exec (Env ω) Error DirectiveOutcome :=
  provided "xfer".toList .xfer (ctx.xfer.map fun p => p.xfer args)

/-- The handler writes its own block: none is closed for it. -/
def Security.run (ctx : ServerContext ω) (args : Str) : Exec (Env ω) Error DirectiveOutcome :=
  match ctx.auth with
  | none => Exec.throw (.protocol .DIRECTIVE_NOT_AVAILABLE "security".toList)
  | some h => do
      Env.lend (h.authenticate args)
      pure .ok

/-! ## Registration -/

/-- `-register on <action> <email> [more]`. The session changes only after
`begin` came back `Ok`. -/
def Register.on (h : RegisterHandler ω) (parts : List Str) : Exec (Env ω) Error DirectiveOutcome :=
  let action := parts[1]?.getD []
  let email := parts[2]?.getD []
  let extra := if parts.length > 3 then List.intercalate [' '] (parts.drop 3) else []
  if action = [] ∨ email = [] then
    Exec.throw (.protocol .INVALID_DIRECTIVE_SYNTAX
      "register on requires <action> <email>".toList)
  else do
    Env.ask (h.begin action email extra)
    Env.setSession fun s =>
      { s with state := .spool, registerAction := some action, registerEmail := some email }
    pure .ok

/-- `-register off`. -/
def Register.off (h : RegisterHandler ω) : Exec (Env ω) Error DirectiveOutcome := do
  Env.write h.finish
  Env.setSession fun s => { s with state := .query, registerAction := none, registerEmail := none }
  pure .ok

/-- Neither branch looks at the session's state. -/
def Register.run (ctx : ServerContext ω) (args : Str) : Exec (Env ω) Error DirectiveOutcome :=
  let parts := splitArgs args
  let mode := parts.head?.map toAsciiLowercase
  match ctx.register with
  | none => Exec.throw (.protocol .REGISTRATION_NOT_AUTHORIZED "register".toList)
  | some h =>
      if mode = some "on".toList then Register.on h parts
      else if mode = some "off".toList then Register.off h
      else Exec.throw (.protocol .INVALID_DIRECTIVE_SYNTAX "register on|off".toList)

def Notify.run : Exec (Env ω) Error DirectiveOutcome := pure .ok

/-! ## Dispatch on the directive -/

def run (ctx : ServerContext ω) (args : Str) : Builtin → Exec (Env ω) Error DirectiveOutcome
  | .quit => Quit.run
  | .holdConnect => HoldConnect.run args
  | .limit => Limit.run args
  | .forward => Forward.run args
  | .display => Display.run args
  | .status => Status.run
  | .rwhois => Rwhois.run ctx args
  | .directiveList => DirectiveList.run ctx
  | .cls => Class.run ctx args
  | .schema => Schema.run ctx args
  | .soa => Soa.run ctx args
  | .xfer => Xfer.run ctx args
  | .register => Register.run ctx args
  | .security => Security.run ctx args
  | .notify => Notify.run

end Builtin

def Directive.run (self : Directive ω) (ctx : ServerContext ω) (args : Str) :
    Exec (Env ω) Error DirectiveOutcome :=
  match self.body with
  | .builtin b => b.run ctx args
  | .custom f => Env.lend (f args)

end Rwhois
