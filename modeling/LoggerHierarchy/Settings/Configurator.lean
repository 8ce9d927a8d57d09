import LoggerHierarchy.Event
import LoggerHierarchy.Settings.Basic
import LoggerHierarchy.Tree.Basic

namespace LoggerHierarchy

/-!
# Configurators

A configurator answers what a tree asks about its nodes from settings and from the handlers that
were registered under a name:

* `Configurator` — settings with registered handlers, of which the last one under a name counts;
* `Configurator.level`, `minimum` — the levels of a name;
* `Configurator.handlers` — the registered handlers of a name; each unregistered one is announced
  and left out.
-/

/-- Settings with the handlers that they may name. -/
structure Configurator where
  settings : TreeSettings := {}
  registered : List (String × Handler) := []

namespace Configurator

/-- Registers a handler under a name, in place of the one before. -/
def register (c : Configurator) (name : String) (handler : Handler) : Configurator :=
  { c with registered := (name, handler) :: c.registered }

/-- The handler that is registered under a name. -/
def handler? (c : Configurator) (name : String) : Option Handler :=
  c.registered.lookup name

def level (c : Configurator) (name : String) : Option Level :=
  (c.settings.lookup name).bind (·.level)

def minimum (c : Configurator) (name : String) : Option Level :=
  (c.settings.lookup name).bind (·.minimum)

/-- The names of the handlers that are set for a logger. -/
def handlerNames (c : Configurator) (name : String) : List String :=
  ((c.settings.lookup name).map (·.handlers)).getD []

/-- The event of a handler that is set for a logger and not registered. -/
def unregistered (logger handler : String) : Event :=
  ⟨.warn, "Configured handler is not registered, skipping",
    [("logger", .text logger), ("handler", .text handler)]⟩

/-- The handlers of a logger, in the order of its settings. -/
def handlers (c : Configurator) (name : String) : List Handler :=
  (c.handlerNames name).filterMap c.handler?

/-- The events of looking up the handlers of a logger. -/
def handlerEvents (c : Configurator) (name : String) : List Event :=
  (c.handlerNames name).filterMap fun handler =>
    if (c.handler? handler).isNone then some (unregistered name handler) else none

end Configurator

end LoggerHierarchy
