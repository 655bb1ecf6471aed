/-
Module: Whitespace.Assembly.Library.Memcontainer
Purpose: A container in memory that gives back what was put in last.
Main exports: memcontainerLines
-/

namespace Whitespace.Assembly.Library

/-- The library `memcontainer`, line by line. -/
def memcontainerLines : List String :=
  ["; A last-in first-out container kept in the heap, built on vectors.",
   "include vector",
   "jump __memcontainer_end",
   "",
   "; ( address -- container )",
   "label memcontainer_new",
   "call vector_new",
   "ret",
   "",
   "; ( container value -- )",
   "label memcontainer_push",
   "call vector_push",
   "ret",
   "",
   "; ( container -- value ) the container must not be empty",
   "label memcontainer_pop",
   "dup",
   "retrieve",
   "sub 1",
   "copy 1",
   "copy 1",
   "store",
   "add",
   "add 1",
   "retrieve",
   "ret",
   "",
   "; ( container -- value ) the container must not be empty",
   "label memcontainer_peek",
   "dup",
   "retrieve",
   "add",
   "retrieve",
   "ret",
   "",
   "; ( container -- size )",
   "label memcontainer_size",
   "retrieve",
   "ret",
   "",
   "label __memcontainer_end"]

end Whitespace.Assembly.Library
