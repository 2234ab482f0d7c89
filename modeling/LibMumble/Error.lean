import Mathlib.Data.Int.Notation

/-! # `Error`, and the errors made from the codes of OpenSSL and libuv -/

namespace LibMumble

/-- The class `Error`. -/
structure Error where
  domain : String
  code : ℤ
  description : String
  deriving DecidableEq, Repr

/-- `Error::NoError`. -/
def Error.noError : Error := ⟨"", 0, ""⟩

/-- `Error::HasError`. -/
def Error.hasError (e : Error) : Bool := !(e.domain.isEmpty && e.description.isEmpty && e.code == 0)

/-! ### OpenSSL -/

def sslErrorNone : ℤ := 0
def sslErrorSSL : ℤ := 1
def sslErrorWantRead : ℤ := 2
def sslErrorWantWrite : ℤ := 3
def sslErrorWantX509Lookup : ℤ := 4
def sslErrorSyscall : ℤ := 5
def sslErrorZeroReturn : ℤ := 6
def sslErrorWantConnect : ℤ := 7
def sslErrorWantAccept : ℤ := 8

/-- `SSLErrorToString`. -/
def sslErrorToString (err : ℤ) : String :=
  if err = sslErrorNone then "SSL_ERROR_NONE - operation completed successfully"
  else if err = sslErrorZeroReturn then "SSL_ERROR_ZERO_RETURN - connection closed by peer"
  else if err = sslErrorWantRead then
    "SSL_ERROR_WANT_READ - requires a read operation to continue"
  else if err = sslErrorWantWrite then
    "SSL_ERROR_WANT_WRITE - requires a write operation to continue"
  else if err = sslErrorWantConnect then
    "SSL_ERROR_WANT_CONNECT - operation did not complete, call SSL_connect again later"
  else if err = sslErrorWantAccept then
    "SSL_ERROR_WANT_ACCEPT - operation did not complete, call SSL_accept again laster"
  else if err = sslErrorWantX509Lookup then
    "SSL_ERROR_WANT_X509_LOOKUP - operation did not complete, call the TLS I/O function again later"
  else if err = sslErrorSyscall then "SSL_ERROR_SYSCALL - system I/O error"
  else if err = sslErrorSSL then "SSL_ERROR_SSL - SSL library error, probably a protocol error"
  else "(none)"

/-- `OpenSSLUtils::ErrorFromOpenSSLErrorCode`. -/
def errorFromOpenSSLErrorCode (err : ℤ) : Error := ⟨"libssl", err, sslErrorToString err⟩

/-- What `ERR_get_error` gives, with the texts of its library and its function. -/
structure CryptoErr where
  code : ℤ
  lib : String
  func : String

/-- `OpenSSLUtils::ErrorFromLastCryptoError`. The text put for the reason is that of the function. -/
def errorFromLastCryptoError (e : CryptoErr) : Error :=
  ⟨"libcrypto", e.code, e.lib ++ "; " ++ e.func ++ "; " ++ e.func⟩

/-! ### libuv -/

def uvOK : ℤ := 0
def uvEOF : ℤ := 1

/-- What `uv_last_error` gives, with the text of `uv_strerror` for it. -/
structure UVErr where
  code : ℤ
  strerror : String

/-- `UVUtils::ErrorFromUVError`. -/
def errorFromUVError (e : UVErr) : Error := ⟨"uv", e.code, e.strerror⟩

end LibMumble
