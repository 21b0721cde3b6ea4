/-
Names that every record answers to.

A record answers to the names that were written into it, and also to a few that come with every
record.  A name of the second kind is found when it is asked for, although it is no field: it is
not listed, not copied, and not written out.

* `Members.names` — the names;
* `Members.parent` — the name under which a record keeps the place where it finds them; what is
  written there is no field;
* `Members.isInherited` — any of these names;
* `Members.ofLists`, `Members.ofMoments` — further operations, which come with lists and with
  moments.
-/
namespace StorageKit
namespace Members

/-- The operations that come with every record. -/
def names : List String :=
  ["constructor", "toString", "toLocaleString", "valueOf", "hasOwnProperty", "isPrototypeOf",
    "propertyIsEnumerable", "__defineGetter__", "__defineSetter__", "__lookupGetter__",
    "__lookupSetter__"]

/-- The place where a record finds them. -/
def parent : String := "__proto__"

/-- Every record answers to this name. -/
def isInherited (name : String) : Bool := name = parent || names.contains name

/-- The operations that come with lists only. -/
def ofLists : List String :=
  ["at", "concat", "copyWithin", "entries", "every", "fill", "filter", "find", "findIndex",
    "findLast", "findLastIndex", "flat", "flatMap", "forEach", "includes", "indexOf", "join",
    "keys", "lastIndexOf", "map", "pop", "push", "reduce", "reduceRight", "reverse", "shift",
    "slice", "some", "sort", "splice", "toReversed", "toSorted", "toSpliced", "unshift", "values",
    "with"]

/-- The operations that come with moments only. -/
def ofMoments : List String :=
  ["getDate", "getDay", "getFullYear", "getHours", "getMilliseconds", "getMinutes", "getMonth",
    "getSeconds", "getTime", "getTimezoneOffset", "getUTCDate", "getUTCDay", "getUTCFullYear",
    "getUTCHours", "getUTCMilliseconds", "getUTCMinutes", "getUTCMonth", "getUTCSeconds",
    "getYear", "setDate", "setFullYear", "setHours", "setMilliseconds", "setMinutes", "setMonth",
    "setSeconds", "setTime", "setUTCDate", "setUTCFullYear", "setUTCHours", "setUTCMilliseconds",
    "setUTCMinutes", "setUTCMonth", "setUTCSeconds", "setYear", "toDateString", "toGMTString",
    "toISOString", "toJSON", "toLocaleDateString", "toLocaleTimeString", "toTimeString",
    "toUTCString"]

end Members
end StorageKit
