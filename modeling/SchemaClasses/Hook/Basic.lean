import SchemaClasses.Hook.Header
import SchemaClasses.Hook.TypeFilter

/-!
Hooks around a generation run. A hook may change the document before the run, the
text after it, or both. Hooks run in the order in which they were added.
-/

namespace SchemaClasses

open Schema

structure Hook where
  before : Option (Document → Document) := none
  /-- Takes the name of the file to write, and the text. -/
  after : Option (String → String → String) := none

namespace Hook

def ofFilter (filter : TypeFilter) : Hook :=
  { before := some filter.apply }

def ofHeader (header : String) : Hook :=
  { after := some fun _ content => Header.addTo header content }

end Hook

structure Hooks where
  before : List Hook := []
  after : List Hook := []

namespace Hooks

def addBefore (hooks : Hooks) (hook : Hook) : Hooks :=
  { hooks with before := hooks.before ++ [hook] }

def addAfter (hooks : Hooks) (hook : Hook) : Hooks :=
  { hooks with after := hooks.after ++ [hook] }

def runBefore (hooks : Hooks) (document : Document) : Document :=
  (hooks.before.filterMap Hook.before).foldl (fun current change => change current) document

def runAfter (hooks : Hooks) (filename content : String) : String :=
  (hooks.after.filterMap Hook.after).foldl (fun current change => change filename current) content

end Hooks

end SchemaClasses
