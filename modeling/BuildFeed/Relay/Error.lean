import BuildFeed.Config
import BuildFeed.Handshake

namespace BuildFeed

inductive RelayError where
  | protocol (error : ProtocolError)
  | handshake (error : HandshakeError)
  | config (error : ConfigError)
  deriving DecidableEq

namespace RelayError

def message : RelayError → String
  | protocol error => "Protocol error: " ++ error.message
  | handshake error => "Handshake failed: " ++ error.message
  | config error => "Config error: " ++ error.message

def isDesync : RelayError → Bool
  | protocol error => error.isDesync
  | _ => false

end RelayError

end BuildFeed
