import K210Guard.Boot.Chain
import K210Guard.Boot.Confinement
import K210Guard.Boot.Termination
import K210Guard.Boot.Copy
import K210Guard.Sha.Streaming
import K210Guard.Tools.Agreement
import K210Guard.Cli.Arity
import K210Guard.Trap.LoadEmulation
import K210Guard.Trap.StoreEmulation
import K210Guard.Kermit.Download
import K210Guard.Cores.WakeUp
import K210Guard.Cores.StaleCall
import K210Guard.Cli.CommandBuffer
import K210Guard.Cli.Crc16
import K210Guard.Cli.Screen
import K210Guard.Kermit.DataPackets
import K210Guard.Kermit.Replies
import K210Guard.Tools.RomImage
import K210Guard.Tools.Kflash
import K210Guard.Irq.Ranking
import K210Guard.Irq.Registrations
import K210Guard.Spi.Transfers
import K210Guard.Aes.Streaming
import K210Guard.Otp.Areas
import K210Guard.Otp.Bounds
import K210Guard.Otp.ReadBack
import K210Guard.Interaction.CallStack
import K210Guard.Irq.Traps
import K210Guard.Cli.Dump
import K210Guard.Printf.Agreement
import K210Guard.Cli.Confinement
import K210Guard.Cli.RoundTrip
