/-
Module: Whitespace.Assembly.Library.Vector
Purpose: Arrays in memory that grow at their end.
Main exports: vectorLines
-/

namespace Whitespace.Assembly.Library

/-- The library `vector`, line by line. -/
def vectorLines : List String :=
  ["; Growable arrays in the heap: the length is stored at the vector's address,",
   "; element i at address + 1 + i. Callers must leave room behind a vector.",
   "jump __vector_end",
   "",
   "; ( address -- address ) makes an empty vector at address",
   "label vector_new",
   "dup",
   "push 0",
   "store",
   "ret",
   "",
   "; ( vector -- length )",
   "label vector_len",
   "retrieve",
   "ret",
   "",
   "; ( vector value -- )",
   "label vector_push",
   "copy 1",
   "retrieve",
   "copy 2",
   "add",
   "add 1",
   "swap",
   "store",
   "dup",
   "retrieve",
   "add 1",
   "store",
   "ret",
   "",
   "; ( vector index -- value )",
   "label vector_get",
   "add",
   "add 1",
   "retrieve",
   "ret",
   "",
   "; ( vector index value -- )",
   "label vector_set",
   "copy 2",
   "copy 2",
   "add",
   "add 1",
   "swap",
   "store",
   "pop",
   "pop",
   "ret",
   "",
   "label __vector_end"]

end Whitespace.Assembly.Library
