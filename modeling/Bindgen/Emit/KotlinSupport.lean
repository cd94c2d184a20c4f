import Bindgen.Boundary.Support
import Bindgen.Emit.Lines

/-!
# Support code in Kotlin

The part of every generated Kotlin file that does not depend on the model, apart from the name of the
library interface and the symbols that copy and free buffers.
-/

namespace Bindgen.Emit.KotlinSupport

open Interface Boundary

/-- What generated files import. -/
def imports : List String :=
  ["import com.sun.jna.Library",
   "import com.sun.jna.Memory",
   "import com.sun.jna.Native",
   "import com.sun.jna.Pointer",
   "import com.sun.jna.Structure",
   "import java.io.ByteArrayOutputStream",
   "import java.io.DataOutputStream",
   "import java.nio.BufferUnderflowException",
   "import java.nio.ByteBuffer",
   "import java.nio.ByteOrder",
   "import java.nio.charset.CharacterCodingException",
   "import java.nio.charset.CodingErrorAction",
   "import java.util.concurrent.atomic.AtomicLong"]

/-- The base of all failures of native calls. -/
def nativeException : List Code :=
  ["open class NativeException(val code: Int, message: String) : Exception(message)"]

/-- The failure that no declared error covers. -/
def internalException : List Code :=
  [s!"class InternalException(message: String) : NativeException({unexpectedCode}, message)"]

/-- What turns a code into an exception. -/
def errorHandler : List Code :=
  braced "interface ErrorHandler<E : NativeException>"
    ["fun lift(code: Int, message: String): E"]

/-- Refuses a buffer whose lengths or pointer contradict each other. -/
def checkBuffer : List Code :=
  braced "internal fun checkBuffer(buf: BufferRecord)"
    (braced "if (buf.capacity < 0 || buf.len < 0 || buf.len > buf.capacity)"
       ["throw InternalException(\"invalid buffer lengths: capacity=$\x7bbuf.capacity\x7d len=$\x7bbuf.len\x7d\")"] ++
     braced "if ((buf.data != null) != (buf.capacity > 0))"
       ["throw InternalException(\"buffer data does not match capacity\")"])

/-- The bytes in a buffer. -/
def readBuffer : List Code :=
  braced "internal fun readBuffer(buf: BufferRecord): ByteArray"
    ["checkBuffer(buf)",
      "if (buf.len == 0) return ByteArray(0)",
      "return buf.data!!.getByteArray(0, buf.len)"]

/-- Gives a buffer back to the library `lib`. -/
def freeBuffer (lib free : String) : List Code :=
  braced "internal fun freeBuffer(buf: BufferRecord.ByValue)"
    [s!"{lib}.{free}(buf)"]

/-- Reads a buffer and frees it. -/
def liftBuffer : List Code :=
  braced "internal fun <T> liftBuffer(converter: FfiConverter<T>, buf: BufferRecord.ByValue): T"
    (chained [
       ("val data = try",
         ["readBuffer(buf)"]),
       ("finally",
         ["freeBuffer(buf)"])] ++
     texts ["return converter.fromBytes(data)"])

/-- Copies a value into a buffer of the library `lib`, which the callee frees. -/
def lowerOwned (lib fromBytes : String) : List Code :=
  braced "internal fun <T> lowerOwned(converter: FfiConverter<T>, value: T): BufferRecord.ByValue"
    (texts ["val data = converter.toBytes(value)",
      "val view = ByteView.ByValue()"] ++
     braced "if (data.isNotEmpty())"
       ["val memory = Memory(data.size.toLong())",
         "memory.write(0, data, 0, data.size)",
         "view.len = data.size",
         "view.data = memory"] ++
     texts [s!"val buf = {lib}.{fromBytes}(view)"] ++
     chained [
       ("try",
         texts ["checkBuffer(buf)"] ++
         braced "if (buf.len != data.size)"
           ["throw InternalException(\"native copy holds $\x7bbuf.len\x7d bytes, expected $\x7bdata.size\x7d\")"] ++
         texts ["return buf"]),
       ("catch (e: Throwable)",
         ["freeBuffer(buf)",
          "throw e"])])

/-- Copies several values, all or none. -/
def lowerOwnedAll : List Code :=
  braced "internal fun lowerOwnedAll(vararg lowerings: () -> BufferRecord.ByValue): List<BufferRecord.ByValue>"
    (texts ["val bufs = ArrayList<BufferRecord.ByValue>(lowerings.size)"] ++
     chained [
       ("try",
         ["lowerings.forEach \x7b bufs.add(it()) \x7d"]),
       ("catch (e: Throwable)",
         ["bufs.forEach \x7b freeBuffer(it) \x7d",
          "throw e"])] ++
     texts ["return bufs"])

/-- Puts a value into a buffer that lives as long as the call. -/
def lowerBorrowed : List Code :=
  braced "internal fun <T> lowerBorrowed(converter: FfiConverter<T>, value: T): BufferRecord.ByValue"
    (texts ["val data = converter.toBytes(value)",
      "val buf = BufferRecord.ByValue()"] ++
     braced "if (data.isNotEmpty())"
       ["val memory = Memory(data.size.toLong())",
         "memory.write(0, data, 0, data.size)",
         "buf.capacity = data.size",
         "buf.len = data.size",
         "buf.data = memory"] ++
     texts ["return buf"])

/-- Throws what an error record reports. -/
def checkStatus : List Code :=
  braced "internal fun checkStatus(status: ErrorRecord, handler: ErrorHandler<*>)"
    (texts [s!"if (status.code == {successCode}) return",
      "var message = \"\""] ++
     braced "if (status.message.capacity > 0)"
       (chained [
          ("try",
            ["message = String(readBuffer(status.message), Charsets.UTF_8)"]),
          ("finally",
            ["freeBuffer(status.message)"])]) ++
     texts [s!"if (status.code == {unexpectedCode}) throw InternalException(message)",
      "throw handler.lift(status.code, message)"])

/-- Calls with an error record and looks at it. -/
def callWithError : List Code :=
  braced "internal inline fun <T> callWithError(handler: ErrorHandler<*>, call: (ErrorRecord.ByReference) -> T): T"
    ["val status = ErrorRecord.ByReference()",
      "val result = call(status)",
      "checkStatus(status, handler)",
      "return result"]

/-- Refuses the null handle. -/
def checkHandle : List Code :=
  braced "internal fun checkHandle(handle: Long): Long"
    ["if (handle == 0L) throw InternalException(\"native core returned a null handle\")",
      "return handle"]

/-- Reads strict UTF-8. -/
def decodeUtf8 : List Code :=
  chained [
    ("internal fun decodeUtf8(bytes: ByteArray): String = try",
      ["Charsets.UTF_8.newDecoder()",
       "    .onMalformedInput(CodingErrorAction.REPORT)",
       "    .onUnmappableCharacter(CodingErrorAction.REPORT)",
       "    .decode(ByteBuffer.wrap(bytes))",
       "    .toString()"]),
    ("catch (e: CharacterCodingException)",
      ["throw InternalException(\"invalid UTF-8 text: $\x7be.message\x7d\")"])]

/-- A boolean as a byte. -/
def lowerBoolean : List Code :=
  ["internal fun lowerBoolean(value: Boolean): Byte = if (value) 1 else 0"]

/-- A byte as a boolean. -/
def liftBoolean : List Code :=
  braced "internal fun liftBoolean(value: Byte): Boolean = when (value.toInt())"
    ["0 -> false",
      "1 -> true",
      "else -> throw InternalException(\"invalid boolean byte $value\")"]

/-- What every converter can do. -/
def converterInterface : List Code :=
  braced "interface FfiConverter<T>"
    (texts ["fun read(buf: ByteBuffer): T",
      "fun write(value: T, out: DataOutputStream)",
      ""] ++
     braced "fun toBytes(value: T): ByteArray"
       ["val bytes = ByteArrayOutputStream()",
         "write(value, DataOutputStream(bytes))",
         "return bytes.toByteArray()"] ++
     emptyLine ++
     braced "fun fromBytes(data: ByteArray): T"
       (texts ["val buf = ByteBuffer.wrap(data).order(ByteOrder.BIG_ENDIAN)"] ++
        chained [
          ("val value = try",
            ["read(buf)"]),
          ("catch (e: BufferUnderflowException)",
            ["throw InternalException(\"buffer underflow while lifting\")"])] ++
        braced "if (buf.hasRemaining())"
          ["throw InternalException(\"junk remaining in buffer after lifting ($\x7bbuf.remaining()\x7d bytes)\")"] ++
        texts ["return value"]))

/-- What opens the converter of a type, called `type` in Kotlin. -/
def converterHead (t : Ty) (type : String) : Code :=
  "object " ++ .converter t ++ " : FfiConverter<" ++ type ++ ">"

/-- The converter of text. -/
def stringConverter : List Code :=
  braced (converterHead .string "String")
    (braced "override fun read(buf: ByteBuffer): String"
       ["val bytes = ByteArray(buf.getInt())",
         "buf.get(bytes)",
         "return decodeUtf8(bytes)"] ++
     emptyLine ++
     braced "override fun write(value: String, out: DataOutputStream)"
       ["val bytes = value.toByteArray(Charsets.UTF_8)",
         "out.writeInt(bytes.size)",
         "out.write(bytes)"] ++
     texts ["",
      "override fun toBytes(value: String): ByteArray = value.toByteArray(Charsets.UTF_8)",
      "",
      "override fun fromBytes(data: ByteArray): String = decodeUtf8(data)"])

/-- The converter of bytes. -/
def bytesConverter : List Code :=
  braced (converterHead .bytes "ByteArray")
    (braced "override fun read(buf: ByteBuffer): ByteArray"
       ["val bytes = ByteArray(buf.getInt())",
         "buf.get(bytes)",
         "return bytes"] ++
     emptyLine ++
     braced "override fun write(value: ByteArray, out: DataOutputStream)"
       ["out.writeInt(value.size)",
         "out.write(value)"] ++
     texts ["",
      "override fun toBytes(value: ByteArray): ByteArray = value.copyOf()",
      "",
      "override fun fromBytes(data: ByteArray): ByteArray = data"])

/-- All support functions, each followed by an empty line. -/
def functions (lib fromBytes free : String) : List Code :=
  [nativeException, internalException, errorHandler, checkBuffer, readBuffer, freeBuffer lib free,
   liftBuffer, lowerOwned lib fromBytes, lowerOwnedAll, lowerBorrowed, checkStatus, callWithError,
   checkHandle, decodeUtf8, lowerBoolean, liftBoolean, converterInterface].flatMap (· ++ emptyLine)

end Bindgen.Emit.KotlinSupport
