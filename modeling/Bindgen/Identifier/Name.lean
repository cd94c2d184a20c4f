import Bindgen.Identifier.Reserved
import Bindgen.Text.NamePartTable
import Bindgen.Text.NameStartTable

/-!
# Names in Python modules

Which texts are identifiers there (`isName`), and what low lines at their ends mean: a name with two in front
belongs to the class in which it stands and gets the name of that class in front (`mangled`), unless it has two
at its end.

Names are told apart as they are written. That the language takes some characters for others when it compares
names (compatibility composition) is left out.
-/

namespace Bindgen.Identifier

/-- Whether a text is an identifier, keywords included. -/
def isName (s : String) : Bool :=
  match s.toList with
  | [] => false
  | c :: cs => Text.NameStartTable.starts.mem c.toNat && cs.all fun d => Text.NamePartTable.parts.mem d.toNat

/-- The one identifier that nothing can be bound to, though it is no keyword. -/
def unbindable : String := "__debug__"

/-- Whether something can be bound to a text. -/
def isBindable (s : String) : Bool :=
  isName s && s ∉ pythonKeywords && s != unbindable

/-- The names that every class knows, whatever its fields are. -/
def classNames : List String :=
  ["mro", "__base__", "__bases__", "__basicsize__", "__call__", "__class__", "__dataclass_params__",
   "__delattr__", "__dictoffset__", "__dir__", "__doc__", "__eq__", "__flags__", "__format__", "__ge__",
   "__getattribute__", "__getstate__", "__gt__", "__hash__", "__init__", "__init_subclass__",
   "__instancecheck__", "__itemsize__", "__le__", "__lt__", "__module__", "__mro__", "__name__", "__ne__",
   "__new__", "__or__", "__prepare__", "__qualname__", "__reduce__", "__reduce_ex__", "__repr__", "__ror__",
   "__setattr__", "__sizeof__", "__str__", "__subclasscheck__", "__subclasses__", "__subclasshook__",
   "__text_signature__", "__weakref__", "__weakrefoffset__"]

/-- The names that hold what a class is made of, which no field of its instances can take. -/
def classParts : List String := ["__annotations__", "__dict__"]

/-- Two low lines. -/
def twoLines : List Char := ['_', '_']

/-- Whether a name belongs to the class in which it stands. -/
def isPrivate (name : String) : Bool :=
  twoLines.isPrefixOf name.toList && !twoLines.isSuffixOf name.toList

/-- Whether a name stands between double low lines. -/
def isDunder (name : String) : Bool :=
  let cs := name.toList
  let inner := (cs.drop 2).take (cs.length - 4)
  4 < cs.length && twoLines.isPrefixOf cs && twoLines.isSuffixOf cs &&
    inner.head? != some '_' && inner.getLast? != some '_'

/-- Whether a name stands between single low lines. -/
def isSunder (name : String) : Bool :=
  let cs := name.toList
  let inner := (cs.drop 1).take (cs.length - 2)
  2 < cs.length && cs.head? == some '_' && cs.getLast? == some '_' &&
    inner.head? != some '_' && inner.getLast? != some '_'

/-- Whether an attribute has the name of a class in front, as the private ones have, unless low lines stand in
front of the class name too. -/
def isOwnOf (cls attr : String) : Bool :=
  let front := ("_" ++ cls ++ "__").toList
  front.length < attr.length && front.isPrefixOf attr.toList && !twoLines.isSuffixOf attr.toList

/-- What a name is called inside a class. -/
def mangled (cls name : String) : String :=
  let front := cls.toList.dropWhile (· == '_')
  if isPrivate name && !front.isEmpty then "_" ++ String.ofList front ++ name else name

end Bindgen.Identifier
